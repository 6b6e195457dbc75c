import Mathlib.Data.Fintype.Basic
import Std.Data.ExtTreeMap.Lemmas
import IceTunnel.Foundation.Edges
import IceTunnel.Foundation.Runs

/-!
`Socket` and `Socket::Group` of `socket.h` and `socket.linux.cpp`.  The kernel answers the
system calls; what it may answer is a condition of the moves.
-/

namespace IceTunnel

/-- The events that `epoll_wait` reports. -/
inductive EpollFlag
  | epollIn
  | epollOut
  | epollErr
  | epollHup
  | epollRdhup
  deriving DecidableEq

instance : Fintype EpollFlag :=
  ⟨{.epollIn, .epollOut, .epollErr, .epollHup, .epollRdhup}, fun flag => by cases flag <;> decide⟩

inductive SocketType
  | udp
  | tcp
  deriving DecidableEq

/-- What `recv`, `send`, `recvfrom` and `sendto` answer. -/
inductive Answer
  | size (size : Nat)
  /-- `EAGAIN`. -/
  | again
  /-- Any other error. -/
  | failed
  deriving DecidableEq

/-- The answers to the constructor of a `Socket`. -/
structure Opened where
  /-- What `::socket` or `::accept` returned. -/
  fd : Int
  /-- `epoll_ctl` with `EPOLL_CTL_ADD` succeeds. -/
  registers : Bool
  /-- `ioctl` with `FIONBIO` succeeds. -/
  nonblocking : Bool
  /-- What the new descriptor is ready for. -/
  events : EpollFlag → Bool

structure Socket where
  type : SocketType
  fd : Int
  connected : Bool
  error : Bool
  sourceRead : Bool
  sourceWrite : Bool
  sourceCloseRead : Bool
  sourceCloseWrite : Bool
  sourceClose : Bool
  deriving DecidableEq

namespace Socket

def close (s : Socket) (error : Bool) : Socket :=
  { s with
    error := s.error || error
    fd := if s.fd ≥ 0 then -1 else s.fd
    sourceRead := false
    sourceWrite := false
    sourceCloseRead := true
    sourceCloseWrite := true
    sourceClose := true }

def closeRead (s : Socket) (error : Bool) : Socket :=
  let s := { s with error := s.error || error }
  if s.sourceCloseRead then s
  else
    let s := { s with sourceRead := false, sourceCloseRead := true }
    if s.sourceCloseWrite then s.close false else s

def closeWrite (s : Socket) (error : Bool) : Socket :=
  let s := { s with error := s.error || error }
  if s.sourceCloseWrite then s
  else
    let s := { s with sourceWrite := false, sourceCloseWrite := true }
    if s.sourceCloseRead then s.close false else s

/-- The constructor.  `connected` says that there was an `internalId`. -/
def new (type : SocketType) (connected : Bool) (opened : Opened) : Socket :=
  let s : Socket :=
    { type := type
      fd := opened.fd
      connected := connected
      error := false
      sourceRead := false
      sourceWrite := false
      sourceCloseRead := false
      sourceCloseWrite := false
      sourceClose := false }
  if s.fd < 0 then s.close true
  else if !opened.registers then { s with fd := -1 }.close true
  else if !opened.nonblocking then s.close true
  else s

def connect (s : Socket) : Socket :=
  { s with connected := true }

/-- `read`, and what it returns. -/
def read (s : Socket) (answer : Answer) : Socket × Nat :=
  if s.sourceCloseRead then (s, 0)
  else
    match answer with
    | .again => ({ s with sourceRead := false }, 0)
    | .failed => (s, 0)
    | .size size => (if size = 0 then s.closeRead false else s, size)

/-- `write`, and what it returns. -/
def write (s : Socket) (answer : Answer) : Socket × Nat :=
  if s.sourceCloseWrite then (s, 0)
  else
    match answer with
    | .again => ({ s with sourceWrite := false }, 0)
    | .failed => (s, 0)
    | .size size => (s, size)

/-- `readfrom`, and what it returns. -/
def readfrom (s : Socket) (answer : Answer) : Socket × Nat :=
  if s.sourceCloseRead then (s, 0)
  else
    match answer with
    | .again => ({ s with sourceRead := false }, 0)
    | .failed => (s, 0)
    | .size size => (s, size)

/-- `writeto`, and what it returns. -/
def writeto (s : Socket) (answer : Answer) : Socket × Nat :=
  s.write answer

/-- The body of the loop in `Group::poll`. -/
def notify (s : Socket) (events : EpollFlag → Bool) : Socket :=
  let s := if s.connected && (events .epollRdhup || events .epollHup) then s.closeWrite false else s
  let s := if events .epollErr then s.closeWrite true else s
  let s := if !events .epollIn && s.sourceCloseWrite then s.closeRead false else s
  let s := { s with sourceRead := !s.sourceCloseRead && events .epollIn }
  { s with sourceWrite := !s.sourceCloseWrite && events .epollOut }

/-- What the owner of a socket calls. -/
inductive Op
  | read (answer : Answer)
  | write (answer : Answer)
  | readfrom (answer : Answer)
  | writeto (answer : Answer)
  | close (error : Bool)
  | closeRead (error : Bool)
  | closeWrite (error : Bool)
  deriving DecidableEq

def apply (s : Socket) : Op → Socket
  | .read answer => (s.read answer).1
  | .write answer => (s.write answer).1
  | .readfrom answer => (s.readfrom answer).1
  | .writeto answer => (s.writeto answer).1
  | .close error => s.close error
  | .closeRead error => s.closeRead error
  | .closeWrite error => s.closeWrite error

/-- The event that an operation was told not to have. -/
def Op.blocked : Op → Option EpollFlag
  | .read .again => some .epollIn
  | .readfrom .again => some .epollIn
  | .write .again => some .epollOut
  | .writeto .again => some .epollOut
  | _ => none

/-- Datagrams are sent or received. -/
def Op.isDatagram : Op → Bool
  | .readfrom _ => true
  | .writeto _ => true
  | _ => false

/-- A socket is closed when both of its halves are, and a closed half is never ready. -/
structure WellFormed (s : Socket) : Prop where
  fd_iff : s.fd < 0 ↔ s.sourceClose = true
  halves : s.sourceClose = (s.sourceCloseRead && s.sourceCloseWrite)
  read : s.sourceCloseRead = true → s.sourceRead = false
  write : s.sourceCloseWrite = true → s.sourceWrite = false

/-- The owner of the socket is told of the event. -/
def Seen (s : Socket) : EpollFlag → Prop
  | .epollIn => s.sourceRead = true ∨ s.sourceCloseRead = true
  | .epollOut => s.sourceWrite = true ∨ s.sourceCloseWrite = true
  | .epollErr => s.error = true ∧ s.sourceCloseWrite = true
  | .epollHup => s.connected = true → s.sourceCloseWrite = true
  | .epollRdhup => s.connected = true → s.sourceCloseWrite = true

/-- A socket that nobody connected and nobody closed: only a failure closes its halves, the
writing half first. -/
structure Passive (s : Socket) : Prop extends WellFormed s where
  unconnected : s.connected = false
  closeWrite : s.sourceCloseRead = true → s.sourceCloseWrite = true
  error : s.sourceCloseWrite = true → s.error = true

section Operations

variable {s : Socket}

@[simp] theorem close_sourceClose (s : Socket) (error : Bool) : (s.close error).sourceClose = true := rfl

@[simp] theorem close_sourceCloseRead (s : Socket) (error : Bool) :
    (s.close error).sourceCloseRead = true := rfl

@[simp] theorem close_sourceCloseWrite (s : Socket) (error : Bool) :
    (s.close error).sourceCloseWrite = true := rfl

@[simp] theorem close_connected (s : Socket) (error : Bool) : (s.close error).connected = s.connected := rfl

@[simp] theorem close_error (s : Socket) (error : Bool) : (s.close error).error = (s.error || error) := rfl

theorem close_fd_lt (s : Socket) (error : Bool) : (s.close error).fd < 0 := by
  simp only [close]
  split <;> omega

theorem WellFormed.close (s : Socket) (error : Bool) : (s.close error).WellFormed :=
  ⟨⟨fun _ => rfl, fun _ => close_fd_lt s error⟩, rfl, fun _ => rfl, fun _ => rfl⟩

theorem new_fd (type : SocketType) (connected : Bool) (opened : Opened) :
    (new type connected opened).fd = opened.fd ∨ (new type connected opened).fd < 0 := by
  simp only [new]
  split
  · exact .inr (close_fd_lt _ _)
  · split
    · exact .inr (close_fd_lt _ _)
    · split
      · exact .inr (close_fd_lt _ _)
      · exact .inl rfl

theorem wellFormed_new (type : SocketType) (connected : Bool) (opened : Opened) :
    (new type connected opened).WellFormed := by
  simp only [new]
  split
  · exact .close _ _
  · rename_i hopen
    split
    · exact .close _ _
    · split
      · exact .close _ _
      · exact ⟨⟨fun hfd => absurd hfd hopen, nofun⟩, rfl, nofun, nofun⟩

/-- A socket keeps its descriptor or closes it. -/
structure Keeps (s t : Socket) : Prop where
  wellFormed : t.WellFormed
  fd : t.fd = s.fd ∨ t.fd < 0

/-- What one of the operations does to a socket: it never takes anything back but the readiness
of a half. -/
structure Becomes (s t : Socket) : Prop extends Keeps s t where
  connected : t.connected = s.connected
  error : s.error = true → t.error = true
  closeRead : s.sourceCloseRead = true → t.sourceCloseRead = true
  closeWrite : s.sourceCloseWrite = true → t.sourceCloseWrite = true

theorem WellFormed.becomes (h : s.WellFormed) : s.Becomes s :=
  ⟨⟨h, .inl rfl⟩, rfl, id, id, id⟩

theorem WellFormed.connect (h : s.WellFormed) : s.Keeps s.connect :=
  ⟨⟨h.fd_iff, h.halves, h.read, h.write⟩, .inl rfl⟩

theorem Becomes.trans {t u : Socket} (h : s.Becomes t) (h' : t.Becomes u) : s.Becomes u := by
  refine ⟨⟨h'.wellFormed, ?_⟩, h'.connected.trans h.connected, h'.error ∘ h.error,
    h'.closeRead ∘ h.closeRead, h'.closeWrite ∘ h.closeWrite⟩
  rcases h'.fd with hfd | hfd
  · rw [hfd]
    exact h.fd
  · exact .inr hfd

theorem becomes_close (s : Socket) (error : Bool) : s.Becomes (s.close error) :=
  ⟨⟨.close s error, .inr (close_fd_lt s error)⟩, rfl, fun h => by rw [close_error, h, Bool.true_or],
    fun _ => rfl, fun _ => rfl⟩

theorem WellFormed.withError (h : s.WellFormed) (error : Bool) :
    s.Becomes { s with error := s.error || error } :=
  ⟨⟨⟨h.fd_iff, h.halves, h.read, h.write⟩, .inl rfl⟩, rfl, fun he => by rw [he, Bool.true_or], id, id⟩

theorem WellFormed.closeRead (h : s.WellFormed) (error : Bool) : s.Becomes (s.closeRead error) := by
  simp only [Socket.closeRead]
  split
  · exact h.withError error
  · rename_i hread
    split
    · rename_i hwrite
      refine ⟨⟨.close _ _, .inr (close_fd_lt _ _)⟩, rfl, fun he => ?_, fun _ => rfl, fun _ => rfl⟩
      rw [close_error, he, Bool.true_or, Bool.true_or]
    · rename_i hwrite
      rw [Bool.not_eq_true] at hread hwrite
      have hhalves := h.halves
      refine ⟨⟨⟨h.fd_iff, ?_, fun _ => rfl, h.write⟩, .inl rfl⟩, rfl, fun he => by rw [he, Bool.true_or],
        fun _ => rfl, id⟩
      rw [hread, hwrite, Bool.false_and] at hhalves
      rw [hhalves, hwrite, Bool.and_false]

theorem WellFormed.closeWrite (h : s.WellFormed) (error : Bool) : s.Becomes (s.closeWrite error) := by
  simp only [Socket.closeWrite]
  split
  · exact h.withError error
  · rename_i hwrite
    split
    · rename_i hread
      refine ⟨⟨.close _ _, .inr (close_fd_lt _ _)⟩, rfl, fun he => ?_, fun _ => rfl, fun _ => rfl⟩
      rw [close_error, he, Bool.true_or, Bool.true_or]
    · rename_i hread
      rw [Bool.not_eq_true] at hread hwrite
      have hhalves := h.halves
      refine ⟨⟨⟨h.fd_iff, ?_, h.read, fun _ => rfl⟩, .inl rfl⟩, rfl, fun he => by rw [he, Bool.true_or],
        id, fun _ => rfl⟩
      rw [hwrite, Bool.and_false] at hhalves
      rw [hhalves, hread, Bool.false_and]

theorem closeRead_sourceCloseRead (s : Socket) (error : Bool) :
    (s.closeRead error).sourceCloseRead = true := by
  simp only [Socket.closeRead]
  split
  · assumption
  · split <;> rfl

theorem closeWrite_sourceCloseWrite (s : Socket) (error : Bool) :
    (s.closeWrite error).sourceCloseWrite = true := by
  simp only [Socket.closeWrite]
  split
  · assumption
  · split <;> rfl

theorem closeWrite_error (s : Socket) : (s.closeWrite true).error = true := by
  simp only [Socket.closeWrite, Bool.or_true]
  split
  · rfl
  · split <;> rfl

theorem WellFormed.withReady (h : s.WellFormed) {sourceRead sourceWrite : Bool}
    (hread : s.sourceCloseRead = true → sourceRead = false)
    (hwrite : s.sourceCloseWrite = true → sourceWrite = false) :
    s.Becomes { s with sourceRead := sourceRead, sourceWrite := sourceWrite } :=
  ⟨⟨⟨h.fd_iff, h.halves, hread, hwrite⟩, .inl rfl⟩, rfl, id, id, id⟩

/-- The part of `notify` that closes. -/
def hangUp (s : Socket) (events : EpollFlag → Bool) : Socket :=
  let s := if s.connected && (events .epollRdhup || events .epollHup) then s.closeWrite false else s
  let s := if events .epollErr then s.closeWrite true else s
  if !events .epollIn && s.sourceCloseWrite then s.closeRead false else s

theorem notify_eq (s : Socket) (events : EpollFlag → Bool) : s.notify events =
    { s.hangUp events with
      sourceRead := !(s.hangUp events).sourceCloseRead && events .epollIn
      sourceWrite := !(s.hangUp events).sourceCloseWrite && events .epollOut } := rfl

theorem WellFormed.when (h : s.WellFormed) {t : Socket} (ht : s.Becomes t) (c : Prop) [Decidable c] :
    s.Becomes (if c then t else s) := by
  split
  · exact ht
  · exact h.becomes

theorem WellFormed.hangUp (h : s.WellFormed) (events : EpollFlag → Bool) :
    s.Becomes (s.hangUp events) ∧
      (s.connected = true → (events .epollRdhup || events .epollHup) = true →
        (s.hangUp events).sourceCloseWrite = true) ∧
      (events .epollErr = true →
        (s.hangUp events).error = true ∧ (s.hangUp events).sourceCloseWrite = true) := by
  let first := if s.connected && (events .epollRdhup || events .epollHup) then s.closeWrite false else s
  let second := if events .epollErr then first.closeWrite true else first
  have hfirst : s.Becomes first := h.when (h.closeWrite false) _
  have hsecond : first.Becomes second := hfirst.wellFormed.when (hfirst.wellFormed.closeWrite true) _
  have hthird : second.Becomes (s.hangUp events) :=
    hsecond.wellFormed.when (hsecond.wellFormed.closeRead false) _
  refine ⟨(hfirst.trans hsecond).trans hthird, fun hconnected hup => ?_, fun herr => ?_⟩
  · have hclosed : first = s.closeWrite false := if_pos (by rw [hconnected, hup]; rfl)
    exact hthird.closeWrite (hsecond.closeWrite (hclosed ▸ closeWrite_sourceCloseWrite s false))
  · have hclosed : second = first.closeWrite true := if_pos herr
    exact ⟨hthird.error (hclosed ▸ closeWrite_error first),
      hthird.closeWrite (hclosed ▸ closeWrite_sourceCloseWrite first true)⟩

theorem WellFormed.notify (h : s.WellFormed) (events : EpollFlag → Bool) :
    s.Becomes (s.notify events) := by
  obtain ⟨hclosed, -⟩ := h.hangUp events
  rw [notify_eq]
  refine hclosed.trans (hclosed.wellFormed.withReady (fun hread => ?_) fun hwrite => ?_)
  · rw [hread, Bool.not_true, Bool.false_and]
  · rw [hwrite, Bool.not_true, Bool.false_and]

/-- Whatever `epoll_wait` reports, the owner is told of. -/
theorem WellFormed.seen_notify (h : s.WellFormed) {events : EpollFlag → Bool} {flag : EpollFlag}
    (hflag : events flag = true) : (s.notify events).Seen flag := by
  obtain ⟨hclosed, hup, herr⟩ := h.hangUp events
  rw [notify_eq]
  cases flag with
  | epollIn =>
      cases hread : (s.hangUp events).sourceCloseRead with
      | false => exact .inl (by rw [hflag]; rfl)
      | true => exact .inr hread
  | epollOut =>
      cases hwrite : (s.hangUp events).sourceCloseWrite with
      | false => exact .inl (by rw [hflag]; rfl)
      | true => exact .inr hwrite
  | epollErr => exact herr hflag
  | epollHup =>
      refine fun hconnected => hup (hclosed.connected.symm.trans hconnected) ?_
      rw [hflag, Bool.or_true]
  | epollRdhup =>
      refine fun hconnected => hup (hclosed.connected.symm.trans hconnected) ?_
      rw [hflag, Bool.true_or]

theorem WellFormed.apply (h : s.WellFormed) (op : Op) : s.Becomes (s.apply op) := by
  have hwrite (answer : Answer) : s.Becomes (s.write answer).1 := by
    simp only [Socket.write]
    split
    · exact h.becomes
    · cases answer with
      | again => exact h.withReady h.read fun _ => rfl
      | failed => exact h.becomes
      | size size => exact h.becomes
  cases op with
  | read answer =>
      simp only [Socket.apply, Socket.read]
      split
      · exact h.becomes
      · cases answer with
        | again => exact h.withReady (fun _ => rfl) h.write
        | failed => exact h.becomes
        | size size => exact h.when (h.closeRead false) _
  | write answer => exact hwrite answer
  | readfrom answer =>
      simp only [Socket.apply, Socket.readfrom]
      split
      · exact h.becomes
      · cases answer with
        | again => exact h.withReady (fun _ => rfl) h.write
        | failed => exact h.becomes
        | size size => exact h.becomes
  | writeto answer => exact hwrite answer
  | close error => exact becomes_close s error
  | closeRead error => exact h.closeRead error
  | closeWrite error => exact h.closeWrite error

theorem Becomes.seen {t : Socket} (h : s.Becomes t) {flag : EpollFlag} (hseen : s.Seen flag)
    (hread : flag = .epollIn → t.sourceRead = s.sourceRead ∨ t.sourceCloseRead = true)
    (hwrite : flag = .epollOut → t.sourceWrite = s.sourceWrite ∨ t.sourceCloseWrite = true) :
    t.Seen flag := by
  cases flag with
  | epollIn =>
      refine hseen.elim (fun hready => (hread rfl).imp_left fun heq => ?_) fun hclosed =>
        .inr (h.closeRead hclosed)
      rw [heq, hready]
  | epollOut =>
      refine hseen.elim (fun hready => (hwrite rfl).imp_left fun heq => ?_) fun hclosed =>
        .inr (h.closeWrite hclosed)
      rw [heq, hready]
  | epollErr => exact ⟨h.error hseen.1, h.closeWrite hseen.2⟩
  | epollHup => exact fun hconnected => h.closeWrite (hseen (h.connected.symm.trans hconnected))
  | epollRdhup => exact fun hconnected => h.closeWrite (hseen (h.connected.symm.trans hconnected))

theorem closeRead_sourceWrite (s : Socket) (error : Bool) :
    (s.closeRead error).sourceWrite = s.sourceWrite ∨ (s.closeRead error).sourceCloseWrite = true := by
  simp only [Socket.closeRead]
  split
  · exact .inl rfl
  · split
    · exact .inr rfl
    · exact .inl rfl

theorem closeWrite_sourceRead (s : Socket) (error : Bool) :
    (s.closeWrite error).sourceRead = s.sourceRead ∨ (s.closeWrite error).sourceCloseRead = true := by
  simp only [Socket.closeWrite]
  split
  · exact .inl rfl
  · split
    · exact .inr rfl
    · exact .inl rfl

theorem WellFormed.seen_apply (h : s.WellFormed) {op : Op} {flag : EpollFlag}
    (hblocked : op.blocked ≠ some flag) (hseen : s.Seen flag) : (s.apply op).Seen flag := by
  refine (h.apply op).seen hseen ?_ ?_
  · rintro rfl
    cases op with
    | read answer =>
        simp only [Socket.apply, Socket.read]
        split
        · exact .inl rfl
        · cases answer with
          | again => exact absurd rfl hblocked
          | failed => exact .inl rfl
          | size size =>
              dsimp only
              split
              · exact .inr (closeRead_sourceCloseRead s false)
              · exact .inl rfl
    | readfrom answer =>
        simp only [Socket.apply, Socket.readfrom]
        split
        · exact .inl rfl
        · cases answer with
          | again => exact absurd rfl hblocked
          | _ => exact .inl rfl
    | close error => exact .inr rfl
    | closeRead error => exact .inr (closeRead_sourceCloseRead s error)
    | closeWrite error => exact closeWrite_sourceRead s error
    | _ answer =>
        simp only [Socket.apply, Socket.writeto, Socket.write]
        split
        · exact .inl rfl
        · cases answer <;> exact .inl rfl
  · rintro rfl
    have hwrite (answer : Answer) (hagain : answer ≠ .again) :
        (s.write answer).1.sourceWrite = s.sourceWrite := by
      simp only [Socket.write]
      split
      · rfl
      · cases answer with
        | again => exact absurd rfl hagain
        | _ => rfl
    cases op with
    | read answer =>
        simp only [Socket.apply, Socket.read]
        split
        · exact .inl rfl
        · cases answer with
          | size size =>
              dsimp only
              split
              · exact closeRead_sourceWrite s false
              · exact .inl rfl
          | _ => exact .inl rfl
    | readfrom answer =>
        simp only [Socket.apply, Socket.readfrom]
        split
        · exact .inl rfl
        · cases answer <;> exact .inl rfl
    | close error => exact .inr rfl
    | closeRead error => exact closeRead_sourceWrite s error
    | closeWrite error => exact .inr (closeWrite_sourceCloseWrite s error)
    | _ answer =>
        refine .inl (hwrite answer ?_)
        rintro rfl
        exact hblocked rfl

theorem passive_new (type : SocketType) (opened : Opened) : (new type false opened).Passive := by
  have hformed := wellFormed_new type false opened
  suffices h : (new type false opened).connected = false ∧
      ((new type false opened).sourceCloseRead = true → (new type false opened).sourceCloseWrite = true) ∧
      ((new type false opened).sourceCloseWrite = true → (new type false opened).error = true) from
    ⟨hformed, h.1, h.2.1, h.2.2⟩
  simp only [new]
  split
  · exact ⟨rfl, fun _ => rfl, fun _ => rfl⟩
  · split
    · exact ⟨rfl, fun _ => rfl, fun _ => rfl⟩
    · split
      · exact ⟨rfl, fun _ => rfl, fun _ => rfl⟩
      · exact ⟨rfl, nofun, nofun⟩

theorem Passive.failed {t : Socket} (h : s.Passive) (hst : s.Becomes t) (hwrite : t.sourceCloseWrite = true)
    (herror : t.error = true) : t.Passive :=
  ⟨hst.wellFormed, hst.connected.trans h.unconnected, fun _ => hwrite, fun _ => herror⟩

theorem Passive.ready (h : s.Passive) {sourceRead sourceWrite : Bool}
    (hread : s.sourceCloseRead = true → sourceRead = false)
    (hwrite : s.sourceCloseWrite = true → sourceWrite = false) :
    Passive { s with sourceRead := sourceRead, sourceWrite := sourceWrite } :=
  ⟨(h.toWellFormed.withReady hread hwrite).wellFormed, h.unconnected, h.closeWrite, h.error⟩

theorem Passive.hangUp (h : s.Passive) (events : EpollFlag → Bool) : (s.hangUp events).Passive := by
  have hquiet : (if s.connected && (events .epollRdhup || events .epollHup) then s.closeWrite false
      else s) = s := by
    rw [h.unconnected, Bool.false_and, if_neg Bool.false_ne_true]
  have hfailed : (if events .epollErr then s.closeWrite true else s).Passive := by
    split
    · exact h.failed (h.toWellFormed.closeWrite true) (closeWrite_sourceCloseWrite s true)
        (closeWrite_error s)
    · exact h
  simp only [Socket.hangUp, hquiet]
  generalize (if events .epollErr then s.closeWrite true else s) = t at hfailed ⊢
  split
  · rename_i hclosed
    have hwrite : t.sourceCloseWrite = true := (Bool.and_eq_true_iff.mp hclosed).2
    have hbecomes := hfailed.toWellFormed.closeRead false
    exact hfailed.failed hbecomes (hbecomes.closeWrite hwrite) (hbecomes.error (hfailed.error hwrite))
  · exact hfailed

theorem Passive.notify (h : s.Passive) (events : EpollFlag → Bool) : (s.notify events).Passive := by
  rw [notify_eq]
  refine (h.hangUp events).ready (fun hread => ?_) fun hwrite => ?_
  · rw [hread, Bool.not_true, Bool.false_and]
  · rw [hwrite, Bool.not_true, Bool.false_and]

theorem Passive.apply (h : s.Passive) {op : Op} (hop : op.isDatagram = true) : (s.apply op).Passive := by
  cases op with
  | readfrom answer =>
      simp only [Socket.apply, Socket.readfrom]
      split
      · exact h
      · cases answer with
        | again => exact h.ready (fun _ => rfl) h.write
        | _ => exact h
  | writeto answer =>
      simp only [Socket.apply, Socket.writeto, Socket.write]
      split
      · exact h
      · cases answer with
        | again => exact h.ready h.read fun _ => rfl
        | _ => exact h
  | _ => cases hop

end Operations

end Socket

end IceTunnel
