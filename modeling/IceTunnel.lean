import IceTunnel.Completing
import IceTunnel.Draining
import IceTunnel.Confirming
import IceTunnel.Measuring
import IceTunnel.Window
import IceTunnel.Reconfirming
import IceTunnel.Parting
import IceTunnel.Stream
import IceTunnel.Finishing
import IceTunnel.Datagrams
import IceTunnel.Walking
import IceTunnel.Intervals
import IceTunnel.Rounds
import IceTunnel.Throttling
import IceTunnel.Checksum
import IceTunnel.Pairs
import IceTunnel.Codec
import IceTunnel.Reordering
import IceTunnel.Registry
import IceTunnel.Recovering
import IceTunnel.Spacing
import IceTunnel.Resending
import IceTunnel.Lingering
import IceTunnel.Calling
import IceTunnel.Processing
import IceTunnel.Membership
import IceTunnel.Reporting
import IceTunnel.Trusting
import IceTunnel.Listening
import IceTunnel.Timers
import IceTunnel.Configuring
import IceTunnel.Delivering
import IceTunnel.Looping
