import Mtcl.Base.Names
import Mtcl.Config
import Mtcl.ShmBuffer

/-!
# The named buffers of `ConnSHM`

Segments stand under names, and an object of class `shmBuffer` maps one of them.  `createBuffer`, `open` and
`close` are here, and what `ConnSHM::connect` and `notify_close` do with the buffers of a handle.  The kernel
may fail any call (`CreateFault`); once `shm_open` has succeeded the name stands, whatever comes after.
-/

namespace Mtcl

/-- `SHM_MAX_CONCURRENT_CONN`. -/
def shmMaxConcurrentConn : Nat := 1024

/-- The longest name of a segment (`NAME_MAX`). -/
abbrev shmNameMax : Nat := 255

/-- `errno`; `kernel` is anything that a system call says for reasons of its own. -/
inductive ShmErrno
  | EEXIST | ENOENT | EPERM | EINVAL | kernel
  deriving DecidableEq, Repr

/-- The system calls of `createBuffer` whose failure ends it. -/
inductive CreateFault
  | shmOpen | ftruncate | mmap | spinInit
  deriving DecidableEq, Repr

/-- What the kernel fails in a call of `connect`. -/
structure ConnectFaults where
  connshm : Bool := false
  input : Option CreateFault := none
  output : Option CreateFault := none

/-- Where a call of `connect` that returns `nullptr` has ended. -/
inductive ConnectFailure
  | opening (e : ShmErrno)
  | input (e : ShmErrno)
  | output (e : ShmErrno)
  | putting (e : ShmErrno)
  deriving DecidableEq, Repr

/-- An object of class `shmBuffer`: the segment it has mapped last, and whether it still has. -/
structure MappedBuffer where
  seg : Nat := 0
  shmp : Bool := false
  segmentname : Bytes := []
  opened : Bool := false
  deriving DecidableEq, Repr

/-- The check of `shmBuffer::put`, which has no other failure. -/
def MappedBuffer.put (b : MappedBuffer) (msg : Bytes) : Except ShmErrno Nat :=
  if !b.shmp then .error .EINVAL else .ok msg.length

/-- The number in the next names of a connector. -/
def shmNextId (shmconnid : BitVec 32) : Nat := shmconnid.toNat % shmMaxConcurrentConn

/-- The name of an input buffer. -/
def shmInname (shmname : Bytes) (id : Nat) : Bytes :=
  literal ['/'] ++ shmname ++ literal ['_', 'i', 'n', '_'] ++ literal (Nat.toDigits 10 id)

/-- The name of an output buffer. -/
def shmOutname (shmname : Bytes) (id : Nat) : Bytes :=
  literal ['/'] ++ shmname ++ literal ['_', 'o', 'u', 't', '_'] ++ literal (Nat.toDigits 10 id)

/-- The connection message. -/
def connectMessage (inBuf out : MappedBuffer) : Bytes := inBuf.segmentname ++ literal [':'] ++ out.segmentname

/-- The segments and their names. -/
structure ShmSpace where
  names : Names Bytes := {}
  segs : Nat → ShmSegment := fun _ => emptySegment

namespace ShmSpace

/-- There is a segment of this name. -/
def Named (sp : ShmSpace) (name : Bytes) : Prop := sp.names.object name ≠ none

instance (sp : ShmSpace) (name : Bytes) : Decidable (sp.Named name) :=
  inferInstanceAs (Decidable (sp.names.object name ≠ none))

/-- The space behind the creation of a segment, which is filled with zeros. -/
def created (sp : ShmSpace) (name : Bytes) : ShmSpace :=
  ⟨sp.names.create name, Function.update sp.segs sp.names.made emptySegment⟩

/-- `shmBuffer::createBuffer`; `fault` is the call that the kernel fails, if any. -/
def createBuffer (sp : ShmSpace) (b : MappedBuffer) (name : Bytes) (fault : Option CreateFault) :
    Except ShmErrno Unit × MappedBuffer × ShmSpace :=
  if fault = some .shmOpen ∨ shmNameMax < name.length then (.error .kernel, b, sp)
  else if sp.Named name then (.error .EEXIST, b, sp)
  else
    match fault with
    | some .mmap => (.error .kernel, { b with shmp := false }, sp.created name)
    | some .spinInit => (.error .kernel, { b with seg := sp.names.made, shmp := true }, sp.created name)
    | some _ => (.error .kernel, b, sp.created name)
    | none => (.ok (), ⟨sp.names.made, true, name, true⟩, sp.created name)

/-- `shmBuffer::open`; `fault` says that the kernel fails one of its calls. -/
def openBuffer (sp : ShmSpace) (b : MappedBuffer) (name : Bytes) (fault : Bool) : Except ShmErrno MappedBuffer :=
  if b.opened then .error .EPERM
  else
    match sp.names.object name with
    | none => .error .ENOENT
    | some id => if fault then .error .kernel else .ok ⟨id, true, name, true⟩

/-- `shmBuffer::close(true)`. -/
def closeBuffer (sp : ShmSpace) (b : MappedBuffer) : MappedBuffer × ShmSpace :=
  if !b.shmp then (b, sp)
  else ({ b with shmp := false, opened := false }, { sp with names := sp.names.unlink b.segmentname })

/-- `ConnSHM::connect` up to its message: the buffers `connshm`, `in` and `out`, and the counter. -/
def connectBuffers (sp : ShmSpace) (shmname : Bytes) (shmconnid : BitVec 32) (address : Bytes) (f : ConnectFaults) :
    Except ConnectFailure (MappedBuffer × MappedBuffer × MappedBuffer) × BitVec 32 × ShmSpace :=
  match sp.openBuffer {} address f.connshm with
  | .error e => (.error (.opening e), shmconnid, sp)
  | .ok connshm =>
    let id := shmNextId shmconnid
    match sp.createBuffer {} (shmInname shmname id) f.input with
    | (.error e, _, sp) => (.error (.input e), shmconnid + 1, sp)
    | (.ok _, inBuf, sp) =>
      match sp.createBuffer {} (shmOutname shmname id) f.output with
      | (.error e, _, sp) => (.error (.output e), shmconnid + 1, sp)
      | (.ok _, out, sp) => (.ok (connshm, inBuf, out), shmconnid + 1, sp)

/-- What `ConnSHM::notify_close` does with the buffers of a handle: `in` and `out` behind it. -/
def closeBuffers (sp : ShmSpace) (inBuf out : MappedBuffer) (closeWr closeRd : Bool) :
    MappedBuffer × MappedBuffer × ShmSpace :=
  let (out, sp) := if closeWr then sp.closeBuffer out else (out, sp)
  let (inBuf, sp) := if closeRd then sp.closeBuffer inBuf else (inBuf, sp)
  (inBuf, out, sp)

/-! ### Where the calls end -/

variable {sp : ShmSpace} {name name' : Bytes}

@[simp] theorem named_created_self : (sp.created name).Named name := by
  unfold Named created
  rw [Names.create_self]
  exact nofun

theorem named_created_of_ne (h : name' ≠ name) : (sp.created name).Named name' ↔ sp.Named name' := by
  unfold Named created
  rw [Names.create_of_ne _ h]

/-- The segments that are in use are there as before. -/
theorem created_segs (name : Bytes) {s : Nat} (hs : s < sp.names.made) : (sp.created name).segs s = sp.segs s :=
  Function.update_of_ne (Nat.ne_of_lt hs) ..

/-- A new segment of this name can be created, and the kernel opens it. -/
def Creates (sp : ShmSpace) (name : Bytes) (fault : Option CreateFault) : Prop :=
  fault ≠ some .shmOpen ∧ name.length ≤ shmNameMax ∧ ¬sp.Named name

/-- `createBuffer` ends before it creates a segment, or behind that, or it succeeds. -/
theorem createBuffer_cases (sp : ShmSpace) (b : MappedBuffer) (name : Bytes) (fault : Option CreateFault) :
    (¬sp.Creates name fault ∧ ∃ e, sp.createBuffer b name fault = (.error e, b, sp) ∧ (e = .EEXIST → sp.Named name)) ∨
      sp.Creates name fault ∧
        ((fault ≠ none ∧ ∃ b', sp.createBuffer b name fault = (.error .kernel, b', sp.created name) ∧
            (b' = b ∨ b'.shmp = false ∨ fault = some .spinInit)) ∨
          fault = none ∧ sp.createBuffer b name fault = (.ok (), ⟨sp.names.made, true, name, true⟩,
            sp.created name)) := by
  unfold createBuffer
  by_cases hopen : fault = some .shmOpen ∨ shmNameMax < name.length
  · rw [if_pos hopen]
    exact Or.inl ⟨fun h => hopen.elim h.1 (Nat.not_lt.2 h.2.1), _, rfl, nofun⟩
  · rw [if_neg hopen]
    by_cases hname : sp.Named name
    · rw [if_pos hname]
      exact Or.inl ⟨fun h => h.2.2 hname, _, rfl, fun _ => hname⟩
    · rw [if_neg hname]
      refine Or.inr ⟨⟨fun h => hopen (Or.inl h), Nat.le_of_not_lt fun h => hopen (Or.inr h), hname⟩, ?_⟩
      rcases fault with _ | _ | _ | _ | _
      · exact Or.inr ⟨rfl, rfl⟩
      · exact absurd (Or.inl rfl) hopen
      · exact Or.inl ⟨nofun, _, rfl, Or.inl rfl⟩
      · exact Or.inl ⟨nofun, _, rfl, Or.inr (Or.inl rfl)⟩
      · exact Or.inl ⟨nofun, _, rfl, Or.inr (Or.inr rfl)⟩

theorem createBuffer_shmOpen (b : MappedBuffer) : sp.createBuffer b name (some .shmOpen) = (.error .kernel, b, sp) :=
  if_pos (Or.inl rfl)

theorem createBuffer_taken (b : MappedBuffer) (hlen : name.length ≤ shmNameMax) (hname : sp.Named name) :
    sp.createBuffer b name none = (.error .EEXIST, b, sp) := by
  unfold createBuffer
  rw [if_neg fun h => h.elim nofun (Nat.not_lt.2 hlen), if_pos hname]

theorem createBuffer_ok (b : MappedBuffer) (hlen : name.length ≤ shmNameMax) (hname : ¬sp.Named name) :
    sp.createBuffer b name none = (.ok (), ⟨sp.names.made, true, name, true⟩, sp.created name) := by
  unfold createBuffer
  rw [if_neg fun h => h.elim nofun (Nat.not_lt.2 hlen), if_neg hname]

theorem openBuffer_of_named (hname : sp.Named name) :
    ∃ id, sp.openBuffer {} name false = .ok ⟨id, true, name, true⟩ := by
  obtain ⟨id, hid⟩ := Option.ne_none_iff_exists'.1 hname
  refine ⟨id, ?_⟩
  unfold openBuffer
  rw [if_neg Bool.false_ne_true, hid]
  rfl

/-- What stands behind a `close` has stood before, and it is nothing that the buffer still had. -/
theorem closeBuffer_cases (sp : ShmSpace) (b : MappedBuffer) :
    ∀ name, (sp.closeBuffer b).2.Named name → sp.Named name ∧ ¬(b.shmp = true ∧ b.segmentname = name) := by
  intro name
  unfold closeBuffer
  cases hb : b.shmp with
  | false => exact fun h => ⟨h, nofun⟩
  | true =>
    rw [if_neg (by decide)]
    intro h
    by_cases hname : name = b.segmentname
    · subst hname
      exact absurd (Names.unlink_self _ _) h
    · exact ⟨fun hnone => h ((Names.unlink_of_ne _ hname).trans hnone), fun hb => hname hb.2.symm⟩

theorem shmOutname_ne_shmInname (shmname : Bytes) (id : Nat) : shmOutname shmname id ≠ shmInname shmname id := by
  intro h
  have hlen := congrArg List.length h
  simp [shmInname, shmOutname, literal] at hlen

/-- `connect` comes as far as the creation of a segment for its input buffer. -/
def CreatesInput (sp : ShmSpace) (shmname : Bytes) (id : Nat) (address : Bytes) (f : ConnectFaults) : Prop :=
  sp.Named address ∧ f.connshm = false ∧ sp.Creates (shmInname shmname id) f.input

/-- Nothing fails in `connect` once the segment of the input buffer has been created. -/
def CreatesOutput (sp : ShmSpace) (shmname : Bytes) (id : Nat) (f : ConnectFaults) : Prop :=
  f.input = none ∧ f.output = none ∧ sp.Creates (shmOutname shmname id) f.output

/-- `connect` does not come as far as a segment for its input buffer, or it fails after that, or it succeeds. -/
theorem connectBuffers_cases (sp : ShmSpace) (shmname : Bytes) (shmconnid : BitVec 32) (address : Bytes)
    (f : ConnectFaults) :
    let a := shmInname shmname (shmNextId shmconnid)
    let b := shmOutname shmname (shmNextId shmconnid)
    (¬sp.CreatesInput shmname (shmNextId shmconnid) address f ∧ ∃ e id,
        sp.connectBuffers shmname shmconnid address f = (.error e, id, sp) ∧
          (e = .input .EEXIST → sp.Named a) ∧ e ≠ .output .EEXIST) ∨
      sp.CreatesInput shmname (shmNextId shmconnid) address f ∧
        ((¬sp.CreatesOutput shmname (shmNextId shmconnid) f ∧ ∃ e sp',
            sp.connectBuffers shmname shmconnid address f = (.error e, shmconnid + 1, sp') ∧
              (sp' = sp.created a ∨ ¬(sp.created a).Named b ∧ sp' = (sp.created a).created b)) ∨
          sp.CreatesOutput shmname (shmNextId shmconnid) f ∧ ∃ s, sp.names.object address = some s ∧
            sp.connectBuffers shmname shmconnid address f =
              (.ok (⟨s, true, address, true⟩, ⟨sp.names.made, true, a, true⟩, ⟨sp.names.made + 1, true, b, true⟩),
                shmconnid + 1, (sp.created a).created b)) := by
  intro a b
  unfold connectBuffers openBuffer
  rw [if_neg Bool.false_ne_true]
  cases haddr : sp.names.object address with
  | none => exact Or.inl ⟨fun h => h.1 haddr, _, _, rfl, nofun, nofun⟩
  | some s =>
    dsimp only
    cases hconn : f.connshm with
    | true =>
      refine Or.inl ⟨fun h => ?_, _, _, rfl, nofun, nofun⟩
      cases hconn.symm.trans h.2.1
    | false =>
      rw [if_neg Bool.false_ne_true]
      dsimp only
      rcases sp.createBuffer_cases {} a f.input with ⟨hno, e, hin, he⟩ | ⟨hcreates, hin⟩
      · rw [hin]
        exact Or.inl ⟨fun h => hno h.2.2, _, _, rfl, fun heq => he (ConnectFailure.input.inj heq), nofun⟩
      · have hfree : (sp.created a).Named b ↔ sp.Named b := named_created_of_ne (shmOutname_ne_shmInname _ _)
        have hout : (sp.created a).Creates b f.output ↔ sp.Creates b f.output :=
          and_congr_right' (and_congr_right' (not_congr hfree))
        have hnamed : sp.Named address := fun h => nomatch haddr.symm.trans h
        refine Or.inr ⟨⟨hnamed, hconn, hcreates⟩, ?_⟩
        rcases hin with ⟨hfault, b', hin, -⟩ | ⟨hnone, hin⟩
        · rw [hin]
          exact Or.inl ⟨fun h => hfault h.1, _, _, rfl, Or.inl rfl⟩
        · rw [hin]
          dsimp only
          rcases (sp.created a).createBuffer_cases {} b f.output with ⟨hno, e, hcall, -⟩ | ⟨hcreates', hcall⟩
          · rw [hcall]
            exact Or.inl ⟨fun h => hno (hout.2 h.2.2), _, _, rfl, Or.inl rfl⟩
          · rcases hcall with ⟨hfault, b', hcall, -⟩ | ⟨hnone', hcall⟩
            · rw [hcall]
              exact Or.inl ⟨fun h => hfault h.2.1, _, _, rfl, Or.inr ⟨hcreates'.2.2, rfl⟩⟩
            · rw [hcall]
              exact Or.inr ⟨⟨hnone, hnone', hout.1 hcreates'⟩, s, rfl, rfl⟩

end ShmSpace

end Mtcl
