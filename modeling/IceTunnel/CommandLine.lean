import IceTunnel.Params

/-!
`init` of `main.cpp`: the handlers that a command line calls.  `argv` is the list of its
words, so `argc` is its length.
-/

namespace IceTunnel.CommandLine

open Params

/-- A handler call: the number of the option in the table, and the `i` of `argv + i`. -/
structure HandlerCall where
  param : Nat
  index : Nat
  deriving DecidableEq, Repr

/-- The variables of `init`. -/
structure Progress where
  settings : Settings
  out : String
  help : Bool
  processed : List Bool
  /-- The handler calls up to now.  The code keeps no such record. -/
  calls : List HandlerCall

def endl : String := "\n"

section Loops

variable (params : List Param) (argv : List String)

/-- The loop that prints the arguments of an option that could not be set. -/
def printArgs (i argsCount : Nat) (out : String) : Option String :=
  (List.range argsCount).foldlM
    (fun out j => argv[i + 1 + j]?.map fun word => out ++ " " ++ word) out

/-- The loop that sets `processed[i+j]`. -/
def mark (i argsCount : Nat) (processed : List Bool) : Option (List Bool) :=
  (List.range (argsCount + 1)).foldlM
    (fun processed j =>
      if i + j < processed.length then some (processed.set (i + j) true) else none) processed

/-- The body of `if (p == pp)`.  An error is what has been done when `argv` or `processed` is
accessed outside of its bounds. -/
def applyParam (p i : Nat) (param : Param) (x : Progress) : Except Progress Progress :=
  let x := { x with calls := x.calls ++ [⟨p, i⟩] }
  match param.func x.settings (argv.drop i) with
  | none => .error x
  | some (settings, success) =>
      let x := { x with settings := settings }
      let out :=
        if success then some x.out
        else (printArgs argv i param.argsCount (x.out ++ "cannot set param --" ++ param.name)).map
          fun out => out ++ endl
      match out with
      | none => .error x
      | some out =>
          let x := { x with out := out, help := x.help || decide (param.name = "help") }
          match mark i param.argsCount x.processed with
          | none => .error x
          | some processed => .ok { x with processed := processed }

/-- The loop over `pp`, and the `i` it ends with. -/
def matchLoop (p i : Nat) (arg : String) : Nat → List Param → Progress → Except Progress (Progress × Nat)
  | _, [], x => .ok (x, i)
  | pp, param :: params, x =>
      if "--" ++ param.name = arg then
        (if p = pp then applyParam argv p i param x else .ok x).map fun x => (x, i + param.argsCount)
      else matchLoop p i arg (pp + 1) params x

/-- The loop over `i`, which takes `argc` turns at most. -/
def wordLoop (p : Nat) : Nat → Nat → Progress → Except Progress Progress
  | 0, _, x => .ok x
  | turns + 1, i, x =>
      match argv[i]? with
      | none => .ok x
      | some arg =>
          (matchLoop argv p i arg 0 params x).bind fun (x, i) => wordLoop p turns (i + 1) x

/-- The loop over `p`. -/
def paramLoop (x : Progress) : Except Progress Progress :=
  (List.range params.length).foldlM (fun x p => wordLoop params argv p argv.length 1 x) x

def printUsage : String :=
  params.foldl
    (fun out param =>
      out ++ "        --" ++ param.name ++ (if param.args.isEmpty then "" else " " ++ param.args) ++ endl)
    ""

def printDescription : String :=
  params.foldl
    (fun out param =>
      out ++ "  --" ++ param.name ++ (if param.args.isEmpty then "" else " " ++ param.args) ++ endl
        ++ "    " ++ param.description ++ endl ++ endl)
    ""

def printUnknown (processed : List Bool) : String :=
  ((argv.zip processed).drop 1).foldl
    (fun out (word, used) => if used then out else out ++ "unknown param: " ++ word ++ endl) ""

def printHelp (processed : List Bool) : String :=
  endl
    ++ "IceTunnel allow to pass TCP-traffic via UDP and increase speed on channels with big percent of packet loss"
    ++ endl ++ endl
    ++ "Usage: " ++ endl
    ++ "    icetunnel" ++ endl
    ++ printUsage params ++ endl
    ++ "Description:" ++ endl ++ endl
    ++ printDescription params ++ endl
    ++ "Example server (listen UDP-port 1234 and forward it into SOCKS proxy runned at IP 1.2.3.4):" ++ endl
    ++ "    icetunnel --udp-listener 1234 1.2.3.4:1080" ++ endl ++ endl
    ++ "Example client (listen TCP-port 1080 and forward int into UDP 4.3.2.1:1234 and next to SOCKS proxy runned at IP 1.2.3.4):"
    ++ endl
    ++ "    icetunnel --tcp-listener 1080 4.3.2.1:1234" ++ endl ++ endl
    ++ printUnknown argv processed ++ endl

end Loops

/-- The variables before the loops. -/
def start (settings : Settings) (argv : List String) : Progress :=
  { settings := settings
    out := ""
    help := decide (argv.length ≤ 1)
    processed := List.replicate argv.length false
    calls := [] }

/-- What `init` leaves: what it writes to the log, and its result. -/
structure Initialized extends Progress where
  logged : String
  result : Bool

def init (library : Library) (settings : Settings) (argv : List String) : Except Progress Initialized :=
  (paramLoop (params library) argv (start settings argv)).map fun x =>
    let x := { x with help := x.help || (x.processed.drop 1).any fun used => !used }
    let x := { x with
      out := if x.help then x.out ++ printHelp (params library) argv x.processed else x.out }
    { toProgress := x
      logged := if x.settings.logging then x.out else ""
      result := x.settings.test || !x.settings.tcpListeners.isEmpty
        || !x.settings.server.udpListeners.isEmpty || !x.settings.testListeners.isEmpty }

end IceTunnel.CommandLine
