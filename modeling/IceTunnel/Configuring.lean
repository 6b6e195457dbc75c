import IceTunnel.Addresses
import IceTunnel.Processing

namespace IceTunnel.CommandLine

open Params

section Loops

variable {params : List Param} {argv : List String} {I : Progress → Prop}

theorem wordLoop_preserves
    (happly : ∀ p i param x y, params[p]? = some param → applyParam argv p i param x = .ok y →
      I x → I y)
    {p turns i : Nat} {x y : Progress} (h : wordLoop params argv p turns i x = .ok y) (hx : I x) :
    I y := by
  induction turns generalizing i x with
  | zero =>
      obtain rfl := Except.ok.inj h
      exact hx
  | succ turns ih =>
      rcases getElem?_none_or_some i with hnone | ⟨arg, harg⟩
      · rw [wordLoop, hnone] at h
        obtain rfl := Except.ok.inj h
        exact hx
      · rw [wordLoop, harg] at h
        cases hlookup : lookup params arg with
        | none =>
            simp only [matchLoop_of_none (find?_of_lookup_none hlookup)] at h
            exact ih h hx
        | some entry =>
            obtain ⟨q, param⟩ := entry
            obtain ⟨hfind, hparam⟩ := lookup_eq_some hlookup
            simp only [matchLoop_of_some hfind] at h
            by_cases hp : p = q
            · subst hp
              rw [if_pos rfl] at h
              cases happlied : applyParam argv p i param x with
              | error z =>
                  rw [happlied] at h
                  cases h
              | ok z =>
                  rw [happlied] at h
                  exact ih h (happly p i param x z hparam happlied hx)
            · rw [if_neg hp] at h
              exact ih h hx

theorem paramTurns_preserves
    (happly : ∀ p i param x y, params[p]? = some param → applyParam argv p i param x = .ok y →
      I x → I y)
    {turns : Nat} {x y : Progress} (h : paramTurns params argv turns x = .ok y) (hx : I x) : I y := by
  induction turns generalizing y with
  | zero =>
      obtain rfl := Except.ok.inj h
      exact hx
  | succ turns ih =>
      rw [paramTurns_succ] at h
      cases hfirst : paramTurns params argv turns x with
      | error z =>
          rw [hfirst] at h
          cases h
      | ok z =>
          rw [hfirst] at h
          exact wordLoop_preserves happly h (ih hfirst)

theorem applyParam_settings {p i : Nat} {param : Param} {x y : Progress}
    (h : applyParam argv p i param x = .ok y) :
    ∃ success, param.func x.settings (argv.drop i) = some (y.settings, success) ∧
      y.calls = x.calls ++ [⟨p, i⟩] ∧ (success = true → y.out = x.out) := by
  simp only [applyParam] at h
  split at h
  · cases h
  · rename_i settings success hfunc
    split at h
    · cases h
    · rename_i out hout
      split at h
      · cases h
      · obtain rfl := Except.ok.inj h
        refine ⟨success, hfunc, rfl, ?_⟩
        rintro rfl
        rw [if_pos rfl] at hout
        exact (Option.some.inj hout).symm

end Loops

section Replay

variable (params : List Param) (argv : List String)

/-- The settings after a handler call. -/
def call (s : Settings) (c : HandlerCall) : Settings :=
  ((params[c.param]?.bind fun param => param.func s (argv.drop c.index)).map Prod.fst).getD s

/-- The settings after some handler calls. -/
def replay (s : Settings) (calls : List HandlerCall) : Settings :=
  calls.foldl (call params argv) s

/-- The arguments that an option has each time, from left to right. -/
def argumentsOf (name : String) : List (List String) :=
  ((tokens params argv).filter fun token =>
    token.option.any fun entry => decide (entry.2.name = name)).map Token.args

variable {params argv} {s : Settings} {x : Progress}

theorem replay_of_paramTurns {turns : Nat} (h : paramTurns params argv turns (start s argv) = .ok x) :
    x.settings = replay params argv s x.calls := by
  refine paramTurns_preserves (I := fun x => x.settings = replay params argv s x.calls)
    (fun p i param y z hparam happly hy => ?_) h rfl
  obtain ⟨success, hfunc, hcalls, -⟩ := applyParam_settings happly
  rw [hcalls, replay, List.foldl_concat]
  change z.settings = call params argv (replay params argv s y.calls) ⟨p, i⟩
  rw [← hy, call, hparam, Option.bind_some, hfunc]
  rfl

theorem argumentsOf_eq {p : Nat} {param : Param} (hparam : params[p]? = some param)
    (hnames : (params.map Param.name).Nodup) :
    argumentsOf params argv param.name = (callsOf p (tokens params argv)).map fun c =>
      (argv.drop (c.index + 1)).take param.argsCount := by
  have hspec : ∀ token ∈ tokens params argv, argv[token.index]? = some token.word ∧
      token.option = lookup params token.word ∧
      token.args = (argv.drop (token.index + 1)).take (argsCount token.option) := tokens_spec
  rw [argumentsOf, callsOf]
  generalize tokens params argv = ts at hspec ⊢
  induction ts with
  | nil => rfl
  | cons token ts ih =>
      obtain ⟨⟨-, hlookup, hargs⟩, hrest⟩ := List.forall_mem_cons.mp hspec
      have htail := ih hrest
      cases hoption : token.option with
      | none => simpa [Token.call?, hoption] using htail
      | some entry =>
          obtain ⟨q, found⟩ := entry
          have hfound : params[q]? = some found := by
            rw [hoption] at hlookup
            exact (lookup_eq_some hlookup.symm).2
          have hsame : found.name = param.name ↔ q = p := by
            constructor
            · intro heq
              have hlt := (List.getElem?_eq_some_iff.mp hfound).1
              refine (List.getElem?_inj (by rwa [List.length_map]) hnames).mp ?_
              rw [List.getElem?_map, List.getElem?_map, hfound, hparam, Option.map_some,
                Option.map_some, heq]
            · rintro rfl
              rw [Option.some.inj (hfound.symm.trans hparam)]
          by_cases hq : q = p
          · subst hq
            obtain rfl := Option.some.inj (hfound.symm.trans hparam)
            have hcount : argsCount (some (q, found)) = found.argsCount := rfl
            simpa [Token.call?, hoption, hargs, hcount] using htail
          · simpa [Token.call?, hoption, hsame, hq] using htail

theorem replay_option {p : Nat} {param : Param} {name : String}
    {create : Settings → List String → Settings} (hparam : params[p]? = some param)
    (hname : param.name = name) (hnames : (params.map Param.name).Nodup)
    (hpresent : ∀ c ∈ callsOf p (tokens params argv), c.index + param.argsCount < argv.length)
    (hcreate : ∀ s i, i + param.argsCount < argv.length →
      call params argv s ⟨p, i⟩ = create s ((argv.drop (i + 1)).take param.argsCount)) (s : Settings) :
    replay params argv s (callsOf p (tokens params argv)) =
      (argumentsOf params argv name).foldl create s := by
  rw [← hname, argumentsOf_eq hparam hnames, List.foldl_map, replay]
  have hoption : ∀ c ∈ callsOf p (tokens params argv), c = ⟨p, c.index⟩ := by
    intro c hc
    rw [← of_decide_eq_true (List.mem_filter.mp hc).2]
  generalize callsOf p (tokens params argv) = calls at hpresent hoption ⊢
  induction calls generalizing s with
  | nil => rfl
  | cons c calls ih =>
      obtain ⟨hfirst, hrest⟩ := List.forall_mem_cons.mp hpresent
      obtain ⟨hc, hcs⟩ := List.forall_mem_cons.mp hoption
      rw [List.foldl_cons, List.foldl_cons, ih _ hrest hcs]
      congr 1
      rw [← hcreate s c.index hfirst, ← hc]

end Replay

section Listeners

variable {gethostbyname : String → Option (Fin 4 → UInt8)} {atof : String → Rat} {argv : List String}
  {settings : Settings}

/-- Where the next listener goes. -/
def place (s : Settings) :=
  (s.listeners, s.server.lastObjectIndex)

/-- The listeners of a command line: those for UDP before those for TCP, and those before the ones
for tests.  Listeners of one kind come in the order of the command line. -/
def configure (gethostbyname : String → Option (Fin 4 → UInt8)) (params : List Param)
    (argv : List String) (s : Settings) : Settings :=
  let address (args : List String) (k : Nat) := Address.fromString gethostbyname (args.getD k "")
  let s := (argumentsOf params argv "udp-listener").foldl
    (fun s args => s.createUdpListener (address args 0) (address args 1)) s
  let s := (argumentsOf params argv "tcp-listener").foldl
    (fun s args => s.createTcpListener (address args 0) (address args 1)) s
  (argumentsOf params argv "test-listener").foldl
    (fun s args => s.createTestListener (address args 0)) s

theorem params_names (library : Library) : ((params library).map Param.name).Nodup := by
  have hnames : (params library).map Param.name = (params plainLibrary).map Param.name := rfl
  rw [hnames]
  decide +kernel

/-- The first twenty options leave the listeners and their numbers alone. -/
theorem params_keeps_place (library : Library) :
    ∀ param ∈ (params library).take 20, Keeps place param.func := by
  simp only [params, List.take_succ_cons, List.take_zero, List.forall_mem_cons, param0, param1,
    param2, Param.new]
  refine ⟨constant_keeps fun _ => rfl, constant_keeps fun _ => rfl,
    addressSetting_keeps fun _ _ => rfl, addressSetting_keeps fun _ _ => rfl, ?_⟩
  iterate 16 refine ⟨setting_keeps fun _ _ => rfl, ?_⟩
  exact List.forall_mem_nil _

theorem place_replay {params : List Param} {p : Nat} (s : Settings)
    (hkeeps : ∀ param ∈ params[p]?, Keeps place param.func) :
    place (replay params argv s (callsOf p (tokens params argv))) = place s := by
  have hoption : ∀ c ∈ callsOf p (tokens params argv), c.param = p := fun c hc =>
    of_decide_eq_true (List.mem_filter.mp hc).2
  generalize callsOf p (tokens params argv) = calls at hoption
  induction calls generalizing s with
  | nil => rfl
  | cons c calls ih =>
      obtain ⟨rfl, hrest⟩ := List.forall_mem_cons.mp hoption
      rw [replay, List.foldl_cons]
      refine (ih _ hrest).trans ?_
      rw [call]
      cases hparam : params[c.param]? with
      | none => rfl
      | some param =>
          cases hfunc : param.func s (argv.drop c.index) with
          | none =>
              rw [Option.bind_some, hfunc]
              rfl
          | some result =>
              rw [Option.bind_some, hfunc]
              exact hkeeps param hparam s _ result.1 result.2 hfunc

theorem foldl_congr {create : Settings → List String → Settings}
    (hcreate : ∀ s t args, place s = place t → place (create s args) = place (create t args))
    (arguments : List (List String)) {s t : Settings} (h : place s = place t) :
    place (arguments.foldl create s) = place (arguments.foldl create t) := by
  induction arguments generalizing s t with
  | nil => exact h
  | cons args arguments ih => exact ih (hcreate s t args h)

theorem place_createUdpListener {s t : Settings} (h : place s = place t)
    (udpAddress tcpAddress : Address) :
    place (s.createUdpListener udpAddress tcpAddress) =
      place (t.createUdpListener udpAddress tcpAddress) := by
  simp only [place, Settings.listeners, Prod.mk.injEq] at h ⊢
  obtain ⟨⟨hudp, htcp, htest⟩, hlast⟩ := h
  simp only [Settings.createUdpListener, Server.createUdpListener, hudp, htcp, htest, hlast, and_self]

theorem place_createTcpListener {s t : Settings} (h : place s = place t)
    (tcpAddress udpAddress : Address) :
    place (s.createTcpListener tcpAddress udpAddress) =
      place (t.createTcpListener tcpAddress udpAddress) := by
  simp only [place, Settings.listeners, Prod.mk.injEq] at h ⊢
  obtain ⟨⟨hudp, htcp, htest⟩, hlast⟩ := h
  simp only [Settings.createTcpListener, hudp, htcp, htest, hlast, and_self]

theorem place_createTestListener {s t : Settings} (h : place s = place t) (tcpAddress : Address) :
    place (s.createTestListener tcpAddress) = place (t.createTestListener tcpAddress) := by
  simp only [place, Settings.listeners, Prod.mk.injEq] at h ⊢
  obtain ⟨⟨hudp, htcp, htest⟩, hlast⟩ := h
  simp only [Settings.createTestListener, hudp, htcp, htest, hlast, and_self]

theorem getElem?_drop_eq {i k count : Nat} (hk : k < count) (hlt : i + count < argv.length) :
    (argv.drop i)[k + 1]? = some (((argv.drop (i + 1)).take count).getD k "") := by
  have hle : i + (k + 1) < argv.length := by omega
  rw [List.getD_eq_getElem?_getD, List.getElem?_take_of_lt hk, List.getElem?_drop,
    List.getElem?_drop, Nat.add_assoc i 1 k, Nat.add_comm 1 k, List.getElem?_eq_getElem hle]
  rfl

theorem call_listener {p i : Nat} {name first second description : String}
    {create : Settings → Address → Address → Settings}
    (hparam : (params (Address.library gethostbyname atof))[p]? =
      some (param2 name first second description (listener (Address.library gethostbyname atof) create)))
    (hlt : i + 2 < argv.length) (s : Settings) :
    call (params (Address.library gethostbyname atof)) argv s ⟨p, i⟩ =
      create s (Address.fromString gethostbyname (((argv.drop (i + 1)).take 2).getD 0 ""))
        (Address.fromString gethostbyname (((argv.drop (i + 1)).take 2).getD 1 "")) := by
  rw [call, hparam, Option.bind_some]
  simp only [param2, Param.new, listener, getElem?_drop_eq (show 0 < 2 by decide) hlt,
    getElem?_drop_eq (show 1 < 2 by decide) hlt]
  rfl

theorem call_testListener {i : Nat} (hlt : i + 1 < argv.length) (s : Settings) :
    call (params (Address.library gethostbyname atof)) argv s ⟨22, i⟩ =
      s.createTestListener
        (Address.fromString gethostbyname (((argv.drop (i + 1)).take 1).getD 0 "")) := by
  change (((testListener (Address.library gethostbyname atof) s (argv.drop i)).map Prod.fst).getD s) = _
  rw [testListener, addressSetting, getElem?_drop_eq (show 0 < 1 by decide) hlt]
  rfl

theorem place_configure {calls : List HandlerCall}
    (hcalls : calls = (List.range 24).flatMap fun p =>
      callsOf p (tokens (params (Address.library gethostbyname atof)) argv))
    (hpresent : ∀ c ∈ calls, ∀ param ∈ (params (Address.library gethostbyname atof))[c.param]?,
      c.index + param.argsCount < argv.length) (s : Settings) :
    place (replay (params (Address.library gethostbyname atof)) argv s calls) =
      place (configure gethostbyname (params (Address.library gethostbyname atof)) argv s) := by
  let table := params (Address.library gethostbyname atof)
  let turn (s : Settings) (p : Nat) := replay table argv s (callsOf p (tokens table argv))
  have hinside (p : Nat) (hp : p < 24) (param : Param) (hparam : table[p]? = some param) :
      ∀ c ∈ callsOf p (tokens table argv), c.index + param.argsCount < argv.length := by
    intro c hc
    have hoption : c.param = p := of_decide_eq_true (List.mem_filter.mp hc).2
    refine hpresent c ?_ param (hoption ▸ hparam)
    rw [hcalls]
    exact List.mem_flatMap.mpr ⟨p, List.mem_range.mpr hp, hc⟩
  have hsettings : ∀ ps : List Nat, (∀ p ∈ ps, p < 20) → ∀ s, place (ps.foldl turn s) = place s := by
    intro ps
    induction ps with
    | nil => exact fun _ _ => rfl
    | cons p ps ih =>
        intro hps s
        obtain ⟨hp, hrest⟩ := List.forall_mem_cons.mp hps
        refine (ih hrest _).trans (place_replay s fun param hparam => ?_)
        exact params_keeps_place _ param
          (List.mem_of_getElem? ((List.getElem?_take_of_lt hp).trans hparam))
  have hrange : List.range 24 = List.range 20 ++ [20, 21, 22, 23] := by decide
  have hturns : replay table argv s calls =
      turn (turn (turn (turn ((List.range 20).foldl turn s) 20) 21) 22) 23 := by
    rw [hcalls, replay, List.foldl_flatMap, hrange, List.foldl_append]
    rfl
  have hfirst := hsettings (List.range 20) (fun p hp => List.mem_range.mp hp) s
  have hhelp (s : Settings) : place (turn s 23) = place s :=
    place_replay s fun param hparam => by
      obtain rfl := Option.some.inj hparam
      exact constant_keeps fun _ => rfl
  let address (args : List String) (k : Nat) := Address.fromString gethostbyname (args.getD k "")
  let dashed (name : String) := name.map fun letter => if letter = '_' then '-' else letter
  have hudpName : dashed "udp_listener" = "udp-listener" := by decide +kernel
  have htcpName : dashed "tcp_listener" = "tcp-listener" := by decide +kernel
  have htestName : dashed "test_listener" = "test-listener" := by decide +kernel
  have hudp (s : Settings) : turn s 20 = (argumentsOf table argv "udp-listener").foldl
      (fun s args => s.createUdpListener (address args 0) (address args 1)) s :=
    replay_option rfl hudpName (params_names _) (hinside 20 (by decide) _ rfl)
      (fun s i hlt => call_listener rfl hlt s) s
  have htcp (s : Settings) : turn s 21 = (argumentsOf table argv "tcp-listener").foldl
      (fun s args => s.createTcpListener (address args 0) (address args 1)) s :=
    replay_option rfl htcpName (params_names _) (hinside 21 (by decide) _ rfl)
      (fun s i hlt => call_listener rfl hlt s) s
  have htest (s : Settings) : turn s 22 = (argumentsOf table argv "test-listener").foldl
      (fun s args => s.createTestListener (address args 0)) s :=
    replay_option rfl htestName (params_names _) (hinside 22 (by decide) _ rfl)
      (fun s i hlt => call_testListener hlt s) s
  rw [hturns, hhelp, htest, htcp, hudp]
  exact foldl_congr (fun s t args h => place_createTestListener h (address args 0)) _
    (foldl_congr (fun s t args h => place_createTcpListener h (address args 0) (address args 1)) _
      (foldl_congr (fun s t args h => place_createUdpListener h (address args 0) (address args 1)) _
        hfirst))

/-- A handler never fails. -/
def Succeeds (func : Handler) : Prop :=
  ∀ s args t success, func s args = some (t, success) → success = true

theorem setting_succeeds (set : Settings → String → Settings) : Succeeds (setting set) := by
  intro s args t success h
  obtain ⟨value, -, heq⟩ := Option.map_eq_some_iff.mp h
  exact (Prod.mk.inj heq).2.symm

theorem addressSetting_succeeds (set : Settings → Address → Settings) :
    Succeeds (addressSetting (Address.library gethostbyname atof) set) := by
  intro s args t success h
  obtain ⟨value, -, heq⟩ := Option.map_eq_some_iff.mp h
  exact (Prod.mk.inj heq).2.symm

theorem listener_succeeds (create : Settings → Address → Address → Settings) :
    Succeeds (listener (Address.library gethostbyname atof) create) := by
  intro s args t success h
  obtain ⟨first, -, hfirst⟩ := Option.bind_eq_some_iff.mp h
  obtain ⟨second, -, heq⟩ := Option.map_eq_some_iff.mp hfirst
  exact (Prod.mk.inj heq).2.symm

theorem constant_succeeds (set : Settings → Settings) : Succeeds fun s _ => some (set s, true) := by
  intro s args t success h
  exact (Prod.mk.inj (Option.some.inj h)).2.symm

theorem params_succeeds :
    ∀ param ∈ params (Address.library gethostbyname atof), Succeeds param.func := by
  simp only [params, List.forall_mem_cons, param0, param1, param2, Param.new]
  refine ⟨constant_succeeds _, constant_succeeds _, addressSetting_succeeds _,
    addressSetting_succeeds _, ?_⟩
  iterate 16 refine ⟨setting_succeeds _, ?_⟩
  refine ⟨listener_succeeds _, listener_succeeds _, addressSetting_succeeds _, constant_succeeds id, ?_⟩
  exact List.forall_mem_nil _

theorem out_of_paramTurns {params : List Param} (hsucceeds : ∀ param ∈ params, Succeeds param.func)
    {turns : Nat} {x : Progress} (h : paramTurns params argv turns (start settings argv) = .ok x) :
    x.out = "" := by
  refine paramTurns_preserves (I := fun x => x.out = "") (fun p i param y z hparam happly hy => ?_) h rfl
  obtain ⟨success, hfunc, -, hout⟩ := applyParam_settings happly
  exact (hout (hsucceeds param (List.mem_of_getElem? hparam) _ _ _ _ hfunc)).trans hy

/-- `init` creates the listeners that the command line asks for, whatever else is on it, and it
complains about no option that it knows. -/
theorem listeners_of_init {x : Initialized}
    (h : init (Address.library gethostbyname atof) settings argv = .ok x) :
    x.settings.listeners = (configure gethostbyname (params (Address.library gethostbyname atof)) argv
        settings).listeners ∧
      x.out = if x.help then printHelp (params (Address.library gethostbyname atof)) argv x.processed
        else "" := by
  have hpresent := (processed_of_init h).present
  rw [init] at h
  cases hloop : paramLoop (params (Address.library gethostbyname atof)) argv (start settings argv) with
  | error y =>
      rw [hloop] at h
      cases h
  | ok y =>
      rw [hloop] at h
      obtain rfl := Except.ok.inj h
      have hcalls := (paramTurns_passes start_length hloop).calls
      have hout := out_of_paramTurns params_succeeds hloop
      constructor
      · have hplace := place_configure hcalls hpresent settings
        rw [← replay_of_paramTurns hloop] at hplace
        exact (Prod.mk.inj hplace).1
      · simp only [hout, String.empty_append]

/-- The command line that the help has for a client. -/
def helpArgv : List String :=
  ["icetunnel", "--tcp-listener", "1080", "4.3.2.1:1234"]

theorem listeners_of_init_helpArgv :
    ∃ x, init (Address.library (fun _ => none) fun _ => 0) plainSettings helpArgv = .ok x ∧
      x.settings.tcpListeners = [(1, [2, 0, 4, 56, 0, 0, 0, 0, 0, 0, 0, 0, 0, 0, 0, 0],
        [2, 0, 4, 210, 4, 3, 2, 1, 0, 0, 0, 0, 0, 0, 0, 0])] := by
  have hcomplete : ∀ token ∈ tokens (params (Address.library (fun _ => none) fun _ => 0)) helpArgv,
      token.IsComplete := by
    decide +kernel
  obtain ⟨x, hx⟩ := init_isOk plainSettings hcomplete
  refine ⟨x, hx, ?_⟩
  have hlisteners := congrArg (fun listeners => listeners.2.1) (listeners_of_init hx).1
  refine hlisteners.trans ?_
  decide +kernel

end Listeners

end IceTunnel.CommandLine
