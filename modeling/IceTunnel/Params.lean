import IceTunnel.Server

namespace IceTunnel

/-- What the handlers take from the C library and from `Address`. -/
structure Library where
  atoi : String → Int
  atoll : String → Int
  atof : String → Rat
  /-- `Address::fromString`; there is no address when it returns `false`. -/
  fromString : String → Option Address

/-- The fields of a `Server` that `init` has to do with.  A listener of `tcpListeners` is
its number, its address and the `udpAddress` it tunnels to. -/
structure Settings where
  server : Server
  test : Bool
  testTcpRemoteAddress : Address
  testUdpRemoteAddress : Address
  tcpBacklog : Int
  tcpReceiveAddressSize : Int
  udpReceiveAddressSize : Int
  tcpListeners : List (Nat × Address × Address)
  testListeners : List (Nat × Address)
  /-- `log.streams[Log::Info]` is not `NULL`. -/
  logging : Bool

namespace Settings

variable (s : Settings)

def createUdpListener (udpAddress tcpAddress : Address) : Settings :=
  { s with server := (s.server.createUdpListener udpAddress tcpAddress).1 }

def createTcpListener (tcpAddress udpAddress : Address) : Settings :=
  let index := s.server.lastObjectIndex + 1
  { s with
    server.lastObjectIndex := index
    tcpListeners := s.tcpListeners ++ [(index, tcpAddress, udpAddress)] }

def createTestListener (tcpAddress : Address) : Settings :=
  let index := s.server.lastObjectIndex + 1
  { s with
    server.lastObjectIndex := index
    testListeners := s.testListeners ++ [(index, tcpAddress)] }

/-- What the options before `udp_listener` set. -/
def values : (Config × Int × Int) × Bool × Address × Address × Int × Int × Int × Bool :=
  (s.server.parameters, s.test, s.testTcpRemoteAddress, s.testUdpRemoteAddress, s.tcpBacklog,
    s.tcpReceiveAddressSize, s.udpReceiveAddressSize, s.logging)

/-- What the options from `udp_listener` on create. -/
def listeners : Std.ExtTreeMap Nat UdpListener × List (Nat × Address × Address) × List (Nat × Address) :=
  (s.server.udpListeners, s.tcpListeners, s.testListeners)

end Settings

/-- `bool (*func)(Server&, char**)`.  The handler gets the words from its option on; it has
no result where it takes an argument that is not there. -/
abbrev Handler := Settings → List String → Option (Settings × Bool)

structure Param where
  name : String
  argsCount : Nat
  args : String
  description : String
  func : Handler

/-- The constructor of `Param`. -/
def Param.new (name : String) (argsCount : Nat) (args description : String) (func : Handler) : Param :=
  { name := name.map fun letter => if letter = '_' then '-' else letter
    argsCount := argsCount
    args := args
    description := description
    func := func }

namespace Params

variable (library : Library)

/-- A handler that puts its argument into a field. -/
def setting (set : Settings → String → Settings) : Handler := fun s args =>
  args[1]?.map fun value => (set s value, true)

/-- A handler that puts its argument into a field if it is an address. -/
def addressSetting (set : Settings → Address → Settings) : Handler := fun s args =>
  args[1]?.map fun value =>
    match library.fromString value with
    | none => (s, false)
    | some address => (set s address, true)

def daemon : Handler := fun s _ =>
  some ({ s with logging := false }, true)

def test : Handler := fun s _ =>
  some ({ s with test := true }, true)

def testTcpRemoteAddress : Handler :=
  addressSetting library fun s address => { s with testTcpRemoteAddress := address }

def testUdpRemoteAddress : Handler :=
  addressSetting library fun s address => { s with testUdpRemoteAddress := address }

def tcpBacklog : Handler :=
  setting fun s value => { s with tcpBacklog := library.atoi value }

def tcpReceiveAddressSize : Handler :=
  setting fun s value => { s with tcpReceiveAddressSize := library.atoi value }

def udpReceivePacketSize : Handler :=
  setting fun s value => { s with server.udpReceivePacketSize := library.atoi value }

def udpReceiveAddressSize : Handler :=
  setting fun s value => { s with udpReceiveAddressSize := library.atoi value }

def udpSendPacketSize : Handler :=
  setting fun s value => { s with server.config.udpSendPacketSize := library.atoi value }

def udpMaxSentBufferSize : Handler :=
  setting fun s value => { s with server.config.udpMaxSentBufferSize := library.atoi value }

def udpMaxReceiveBufferSize : Handler :=
  setting fun s value => { s with server.config.udpMaxReceiveBufferSize := library.atoi value }

def udpMaxSentMeasureSize : Handler :=
  setting fun s value => { s with server.config.udpMaxSentMeasureSize := library.atoi value }

def udpResendCount : Handler :=
  setting fun s value => { s with server.config.udpResendCount := library.atoi value }

def confirmationResendCount : Handler :=
  setting fun s value => { s with server.config.confirmationResendCount := library.atoi value }

def udpMaxSendLossPercent : Handler :=
  setting fun s value => { s with server.config.udpMaxSendLossPercent := library.atof value }

def udpInitialSendIntervalUs : Handler :=
  setting fun s value => { s with server.udpInitialSendIntervalUs := library.atoll value }

def udpResendUs : Handler :=
  setting fun s value => { s with server.config.udpResendUs := library.atoll value }

def buildConfirmationsUs : Handler :=
  setting fun s value => { s with server.config.buildConfirmationsUs := library.atoll value }

def buildUdpPacketsUs : Handler :=
  setting fun s value => { s with server.config.buildUdpPacketsUs := library.atoll value }

def udpMaxSentMeasureUs : Handler :=
  setting fun s value => { s with server.config.udpMaxSentMeasureUs := library.atoll value }

/-- A handler that creates a listener from its two arguments if they are addresses. -/
def listener (create : Settings → Address → Address → Settings) : Handler := fun s args =>
  args[1]?.bind fun first =>
    match library.fromString first with
    | none => some (s, false)
    | some fromAddress =>
        args[2]?.map fun second =>
          match library.fromString second with
          | none => (s, false)
          | some toAddress => (create s fromAddress toAddress, true)

def udpListener : Handler :=
  listener library Settings.createUdpListener

def tcpListener : Handler :=
  listener library Settings.createTcpListener

def testListener : Handler :=
  addressSetting library Settings.createTestListener

def help : Handler := fun s _ =>
  some (s, true)

/-- `PARAM0`. -/
def param0 (name description : String) (func : Handler) : Param :=
  .new name 0 "" description func

/-- `PARAM1`. -/
def param1 (name arg description : String) (func : Handler) : Param :=
  .new name 1 arg description func

/-- `PARAM2`. -/
def param2 (name arg1 arg2 description : String) (func : Handler) : Param :=
  .new name 2 (arg1 ++ " " ++ arg2) description func

def params : List Param :=
  [ param0 "daemon" "disable logging" daemon,
    param0 "test" "run tests" test,
    param1 "test_tcp_remote_address" "<address>" "address of remote test-listener"
      (testTcpRemoteAddress library),
    param1 "test_udp_remote_address" "<address>" "address of remote udp-tunnel to test-listener"
      (testUdpRemoteAddress library),
    param1 "tcp_backlog" "<value>" "backlog parameter for listen() function" (tcpBacklog library),
    param1 "tcp_receive_address_size" "<value>" "maximum size of tcp-address data"
      (tcpReceiveAddressSize library),
    param1 "udp_receive_packet_size" "<value>" "size of buffer to receive single udp-packet"
      (udpReceivePacketSize library),
    param1 "udp_receive_address_size" "<value>" "maximum size of udp-address data"
      (udpReceiveAddressSize library),
    param1 "udp_send_packet_size" "<value>" "size of sent udp-packets" (udpSendPacketSize library),
    param1 "udp_max_sent_buffer_size" "<value>" "size of send buffer per connection"
      (udpMaxSentBufferSize library),
    param1 "udp_max_receive_buffer_size" "<value>" "size of receive buffer connection"
      (udpMaxReceiveBufferSize library),
    param1 "udp_max_sent_measure_size" "<value>"
      "amount of transfered data to do single speed measure" (udpMaxSentMeasureSize library),
    param1 "udp_resend_count" "<value>" "count of tries to send udp-packet before disconnect"
      (udpResendCount library),
    param1 "confirmation_resend_count" "<value>"
      "count of confirmations for each received udp-packet" (confirmationResendCount library),
    param1 "udp_max_send_loss_percent" "<value>"
      "percent of loss packets, creater value produce more extra traffic, but when value less then real loss percend of the line, speed falls down to zero"
      (udpMaxSendLossPercent library),
    param1 "udp_initial_send_interval_us" "<value>"
      "initial interval in microseconds of send udp-packets, determines initial speed of connection, uses when no one measure complete yet"
      (udpInitialSendIntervalUs library),
    param1 "udp_resend_us" "<value>"
      "time in microseconds of awaiting confirmation before resending udp-packet"
      (udpResendUs library),
    param1 "build_confirmations_us" "<value>" "interval in microseconds of send confirmations"
      (buildConfirmationsUs library),
    param1 "build_udp_packets_us" "<value>"
      "time in microseconds of awaiting data from tcp before send non-full udp-packet"
      (buildUdpPacketsUs library),
    param1 "udp_max_sent_measure_us" "<value>" "time in microseconds to do single speed measure"
      (udpMaxSentMeasureUs library),
    param2 "udp_listener" "<from>" "<to>"
      "server-side of tunnel forward all incoming udp-connections to specified tcp-address"
      (udpListener library),
    param2 "tcp_listener" "<from>" "<to>"
      "client-side of tunnel forward all incoming tcp-connections to specified address of udp-listener"
      (tcpListener library),
    param1 "test_listener" "<address>"
      "simple server uses to do some tests, see: --test-tcp-remote-address, --test-tcp-remote-address"
      (testListener library),
    param0 "help" "show help" help ]

/-- A handler leaves something as it is. -/
def Keeps {β : Type} (look : Settings → β) (func : Handler) : Prop :=
  ∀ s args t success, func s args = some (t, success) → look t = look s

/-- A handler works when it has this many arguments. -/
def Takes (argsCount : Nat) (func : Handler) : Prop :=
  ∀ s args, argsCount < args.length → (func s args).isSome = true

section Families

variable {library : Library} {β : Type} {look : Settings → β}

theorem setting_takes (set : Settings → String → Settings) : Takes 1 (setting set) := by
  intro s args hargs
  rw [setting, List.getElem?_eq_getElem hargs]
  rfl

theorem addressSetting_takes (set : Settings → Address → Settings) :
    Takes 1 (addressSetting library set) := by
  intro s args hargs
  rw [addressSetting, List.getElem?_eq_getElem hargs]
  rfl

theorem listener_takes (create : Settings → Address → Address → Settings) :
    Takes 2 (listener library create) := by
  intro s args hargs
  rw [listener, List.getElem?_eq_getElem (by omega), Option.bind_some]
  split
  · rfl
  · rw [List.getElem?_eq_getElem (by omega)]
    rfl

theorem setting_keeps {set : Settings → String → Settings} (h : ∀ s value, look (set s value) = look s) :
    Keeps look (setting set) := by
  intro s args t success hset
  obtain ⟨value, -, heq⟩ := Option.map_eq_some_iff.mp hset
  obtain ⟨rfl, -⟩ := Prod.mk.inj heq
  exact h s value

theorem addressSetting_keeps {set : Settings → Address → Settings}
    (h : ∀ s address, look (set s address) = look s) : Keeps look (addressSetting library set) := by
  intro s args t success hset
  obtain ⟨value, -, heq⟩ := Option.map_eq_some_iff.mp hset
  split at heq
  · obtain ⟨rfl, -⟩ := Prod.mk.inj heq
    rfl
  · obtain ⟨rfl, -⟩ := Prod.mk.inj heq
    exact h s _

theorem listener_keeps {create : Settings → Address → Address → Settings}
    (h : ∀ s fromAddress toAddress, look (create s fromAddress toAddress) = look s) :
    Keeps look (listener library create) := by
  intro s args t success hset
  obtain ⟨first, -, hfirst⟩ := Option.bind_eq_some_iff.mp hset
  split at hfirst
  · obtain ⟨rfl, -⟩ := Prod.mk.inj (Option.some.inj hfirst)
    rfl
  · obtain ⟨second, -, heq⟩ := Option.map_eq_some_iff.mp hfirst
    split at heq
    · obtain ⟨rfl, -⟩ := Prod.mk.inj heq
      rfl
    · obtain ⟨rfl, -⟩ := Prod.mk.inj heq
      exact h s _ _

theorem constant_keeps {set : Settings → Settings} (h : ∀ s, look (set s) = look s) :
    Keeps look fun s _ => some (set s, true) := by
  intro s args t success hset
  obtain ⟨rfl, -⟩ := Prod.mk.inj (Option.some.inj hset)
  exact h s

end Families

/-- Every handler works with the number of arguments that the table gives. -/
theorem params_takes : ∀ param ∈ params library, Takes param.argsCount param.func := by
  simp only [params, List.forall_mem_cons, param0, param1, param2, Param.new]
  refine ⟨fun _ _ _ => rfl, fun _ _ _ => rfl, addressSetting_takes _, addressSetting_takes _, ?_⟩
  iterate 16 refine ⟨setting_takes _, ?_⟩
  refine ⟨listener_takes _, listener_takes _, addressSetting_takes _, fun _ _ _ => rfl, ?_⟩
  exact List.forall_mem_nil _

theorem params_keeps_listeners :
    ∀ param ∈ (params library).take 20, Keeps Settings.listeners param.func := by
  simp only [params, List.take_succ_cons, List.take_zero, List.forall_mem_cons, param0, param1,
    param2, Param.new]
  refine ⟨constant_keeps fun _ => rfl, constant_keeps fun _ => rfl,
    addressSetting_keeps fun _ _ => rfl, addressSetting_keeps fun _ _ => rfl, ?_⟩
  iterate 16 refine ⟨setting_keeps fun _ _ => rfl, ?_⟩
  exact List.forall_mem_nil _

theorem params_keeps_values :
    ∀ param ∈ (params library).drop 20, Keeps Settings.values param.func := by
  simp only [params, List.drop_succ_cons, List.drop_zero, List.forall_mem_cons, param0, param1,
    param2, Param.new]
  refine ⟨listener_keeps fun _ _ _ => rfl, listener_keeps fun _ _ _ => rfl,
    addressSetting_keeps fun _ _ => rfl, constant_keeps fun _ => rfl, ?_⟩
  exact List.forall_mem_nil _

end Params

end IceTunnel
