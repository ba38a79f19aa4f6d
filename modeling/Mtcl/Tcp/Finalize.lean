import Mtcl.Tcp.Drain

/-!
# Closing everything

`ConnTcp::end`, which calls `setAsClosed` for every entry of the table, and `Manager::finalize`.

`finalize_drains_iff` says when a `finalize` that drains the connections returns: when the stream of each of
them leads to an EOS.  `EosInv` says what `sendEOS` has put on the stream of each handle in every state of every
run, and `finalize_eos_iff` when every connection has got its EOS after `finalize`: a connection that has left
the table because the peer closed first must have been closed by the application, and the kernel must take the
whole of EOS.
-/

namespace Mtcl

open Arrivals

namespace Process

/-- `ConnTcp::end`, over a copy of the table. -/
def endConnections (fuel : Nat) (blockflag : Bool) (p : Process) : Except Stop Process :=
  p.conn.connections.entries.foldlM (fun p e => ConnType.setAsClosed (tcpHandle e.2) fuel blockflag p) p

/-- `Manager::finalize` of a process without collectives and other transports; the I/O thread has stopped. -/
def finalize (fuel : Nat) (blockflag : Bool) (p : Process) : Except Stop Process := p.endConnections fuel blockflag

end Process

/-! ### What EOS has put on the streams -/

namespace Process

/-- The bytes of EOS. -/
abbrev eosHeader : Bytes := List.replicate sizeofSizeT 0

/-- While the write side of a handle is open, no EOS has been sent on it; then one has, of which the kernel's
part is on the stream. -/
def EosInv (p : Process) : Prop :=
  ∀ id < p.allocated,
    ((p.handles id).closedWr = false → (p.handles id).eos = []) ∧
      ((p.handles id).closedWr = true → ∃ as, (p.handles id).eos = [(as, (writen as eosHeader).2.1)] ∧
        (writen as eosHeader).2.1 <:+: (p.handles id).wire)

private theorem EosInv.extends {p q : Process} {id : Nat} (h : p.EosInv) (hid : id < p.allocated)
    (hwr : (q.handles id).closedWr = (p.handles id).closedWr) (hs : Extends (p.handles id) (q.handles id)) :
    ((q.handles id).closedWr = false → (q.handles id).eos = []) ∧
      ((q.handles id).closedWr = true → ∃ as, (q.handles id).eos = [(as, (writen as eosHeader).2.1)] ∧
        (writen as eosHeader).2.1 <:+: (q.handles id).wire) := by
  obtain ⟨hopen, hclosed⟩ := h id hid
  rw [hwr, hs.1]
  refine ⟨hopen, fun hw => ?_⟩
  obtain ⟨as, heos, hin⟩ := hclosed hw
  exact ⟨as, heos, hin.trans hs.2.isInfix⟩

private theorem sendEOS_record {h : HandleTCP} (hfd : h.fd ≠ none) :
    h.sendEOS.2.eos = h.eos ++ [(h.answers, (writen h.answers eosHeader).2.1)] ∧
      h.sendEOS.2.wire = h.wire ++ (writen h.answers eosHeader).2.1 := by
  unfold HandleTCP.sendEOS
  split
  · exact absurd ‹_› hfd
  · exact ⟨rfl, rfl⟩

private theorem close_extends (p : Process) {id : Nat} {wr : Bool} (hwr : wr = true → (p.handles id).closedWr = true)
    (rd : Bool) : Extends (p.handles id) ((p.closeHandle id wr rd).handles id) := by
  obtain ⟨hwire, -, heos⟩ := p.closeHandle_unwritten wr hwr rd
  exact ⟨heos, hwire ▸ List.prefix_refl _⟩

private theorem eosInv_close {p : Process} (hi : p.Inv) (h : p.EosInv) {id : Nat} (hid : id < p.allocated)
    (wr rd : Bool) : (p.closeHandle id wr rd).EosInv := by
  obtain ⟨hrest, fd, wire, answers, eos, deleted, hh, -⟩ := p.closeHandle_handles id wr rd
  intro i hlt
  rw [hrest.1] at hlt
  by_cases hne : i = id
  · subst hne
    have hwr' : ((p.closeHandle i wr rd).handles i).closedWr = ((p.handles i).closedWr || wr) := by
      rw [hh, Function.update_self]
    by_cases hsends : wr = true ∧ (p.handles i).closedWr = false
    · obtain ⟨rfl, hopen⟩ := hsends
      have hfd : (p.handles i).fd ≠ none := fun hnone => by
        have := ((hi.1.noFd i hid).1 hnone).2
        rw [show (p.control i).closedWr = (p.handles i).closedWr from rfl, hopen] at this
        cases this
      obtain ⟨hwire, heos⟩ := p.closeHandle_wire hopen rd
      obtain ⟨hrecord, hput⟩ := sendEOS_record hfd
      rw [hwr', Bool.or_true]
      refine ⟨nofun, fun _ => ⟨(p.handles i).answers, ?_, ?_⟩⟩
      · rw [heos, hrecord, (h i hid).1 hopen]
        rfl
      · rw [hwire, hput]
        exact (List.suffix_append ..).isInfix
    · have hkeeps : wr = true → (p.handles i).closedWr = true := fun hw => by
        by_contra hopen
        exact hsends ⟨hw, Bool.eq_false_iff.2 hopen⟩
      refine h.extends hid ?_ (p.close_extends hkeeps rd)
      rw [hwr']
      cases wr with
      | false => exact Bool.or_false _
      | true => rw [hkeeps rfl, Bool.or_true]
  · have hsame : (p.closeHandle id wr rd).handles i = p.handles i := by
      rw [hh, Function.update_of_ne hne]
    rw [hsame]
    exact h i hlt

private theorem eosInv_tableStep {p q : Process} (hi : p.Inv) (h : p.EosInv) (hstep : p.TableStep q) : q.EosInv := by
  cases hstep with
  | same hs =>
    intro i hlt
    rw [hs.allocated] at hlt
    exact h.extends hlt (congrArg Control.closedWr (congrFun hs.control i)) (hs.sent i)
  | close hid wr rd => exact eosInv_close hi h hid wr rd
  | @delete id hid =>
    obtain ⟨hrest, -, -, -, d, hh, -⟩ := p.deleteUnused_handles id
    intro i hlt
    rw [hrest.1] at hlt
    have hsame : ((p.deleteUnused id).handles i).closedWr = (p.handles i).closedWr ∧
        Extends (p.handles i) ((p.deleteUnused id).handles i) := by
      rw [hh]
      by_cases hne : i = id
      · rw [hne, Function.update_self]
        exact ⟨rfl, rfl, List.prefix_refl _⟩
      · rw [Function.update_of_ne hne]
        exact ⟨rfl, .refl _⟩
    exact h.extends hlt hsame.1 hsame.2
  | @yield id hid hrd =>
    have hsame : (p.notifyYield id).handles = p.handles ∧ (p.notifyYield id).allocated = p.allocated := by
      unfold notifyYield
      split
      · exact ⟨rfl, rfl⟩
      · split <;> exact ⟨rfl, rfl⟩
    intro i hlt
    rw [hsame.1]
    exact h i (hsame.2 ▸ hlt)
  | @add k hk =>
    have hself : (p.newHandle k).handles p.allocated =
        { fd := some k.fd, incoming := k.incoming, answers := k.answers } :=
      put_handles_self ..
    intro i hlt
    by_cases hne : i = p.allocated
    · rw [hne, hself]
      exact ⟨fun _ => rfl, nofun⟩
    · have hsame : (p.newHandle k).handles i = p.handles i := put_handles_ne _ _ hne
      have hlt' : i < p.allocated + 1 := hlt
      rw [hsame]
      exact h i (by omega)
  | clear => exact h
  | push => exact h

private theorem eosInv_evolves {p q : Process} (hi : p.Inv) (h : p.EosInv) (hev : p.Evolves q) : q.EosInv := by
  induction hev with
  | refl => exact h
  | tail hpq hstep ih => exact eosInv_tableStep (inv_evolves hi hpq) ih hstep

end Process

theorem App.Reachable.eosInv {s : App} (h : s.Reachable) : s.proc.EosInv := by
  have hboth : s.proc.Inv ∧ s.proc.EosInv := by
    refine Runs.Reach.invariant (fun s => s.proc.Inv ∧ s.proc.EosInv) ?_ ?_ h
    · rintro s ⟨garbage, e, he⟩
      have hinv := App.Reachable.inv (.start ⟨garbage, e, he⟩)
      refine ⟨hinv, ?_⟩
      rw [e]
      exact nofun
    · rintro o s s' ⟨hi, hj⟩ hstep
      refine ⟨App.inv_step hi hstep, ?_⟩
      by_cases ho : ∃ sck, o = .listen sck
      · obtain ⟨sck, rfl⟩ := ho
        cases hstep
        have hsame : (s.proc.listen sck).handles = s.proc.handles ∧
            (s.proc.listen sck).allocated = s.proc.allocated := by
          unfold Process.listen
          split
          · exact ⟨rfl, rfl⟩
          · dsimp only
            split <;> exact ⟨rfl, rfl⟩
        intro id hid
        dsimp only at hid ⊢
        rw [hsame.1]
        exact hj id (hsame.2 ▸ hid)
      · exact Process.eosInv_evolves hi hj (App.step_evolves (fun sck e => ho ⟨sck, e⟩) hstep)
  exact hboth.2

/-! ### Every connection gets its EOS -/

namespace Process

/-- What has been put down of EOS stays once the write side is closed. -/
private theorem handleStep_eos {id : Nat} {p q : Process} (h : HandleStep id p q)
    (hwr : (p.handles id).closedWr = true) : (q.handles id).eos = (p.handles id).eos := by
  cases h with
  | put hc hs =>
    rw [put_handles_self]
    exact hs.1
  | close hid wr rd => exact (p.close_extends (fun _ => hwr) rd).1
  | delete hid =>
    obtain ⟨-, -, -, -, d, hh, -⟩ := p.deleteUnused_handles id
    rw [hh, Function.update_self]
  | yield hid hrd =>
    unfold notifyYield
    split
    · rfl
    · split <;> rfl

/-- What `sendEOS` has put on the stream of a handle, once its write side is closed. -/
private def eosAfter (h : HandleTCP) : List (List WriteAnswer × Bytes) := if h.closedWr then h.eos else h.sendEOS.2.eos

/-- After `setAsClosed` the write side of the handle is closed, EOS having been sent now or before, and the
other handles are as they were. -/
private theorem setAsClosed_only {id fuel : Nat} {blockflag : Bool} {p p' : Process}
    (h : ConnType.setAsClosed (tcpHandle id) fuel blockflag p = .ok p') :
    Only id p p' ∧ (p'.handles id).closedWr = true ∧ (p'.handles id).eos = eosAfter (p.handles id) := by
  have hk : (tcpHandle id).Keeps fun q =>
      Only id p q ∧ (q.handles id).closedWr = true ∧ (q.handles id).eos = eosAfter (p.handles id) :=
    tcpHandle_keeps fun hq h =>
      ⟨hq.1.trans (only_handleStep h), (only_handleStep h).closedWr hq.2.1, (handleStep_eos h hq.2.1).trans hq.2.2⟩
  refine ConnType.setAsClosed_keeps hk h ?_
  intro b w1 hb h1
  obtain ⟨k, hd, hb⟩ := bind_eq_ok.1 hb
  obtain ⟨hid, -, rfl⟩ := deref_eq_ok.1 hd
  cases hb
  split at h1
  · rename_i hw
    cases h1
    exact ⟨Only.refl id p, hw, (if_pos hw).symm⟩
  · rename_i hw
    obtain ⟨k, -, h1⟩ := bind_eq_ok.1 h1
    cases h1
    obtain ⟨-, fd, wire, answers, eos, deleted, hh, -⟩ := p.closeHandle_handles id true false
    refine ⟨only_handleStep (.close p hid true false), ?_, ?_⟩
    · rw [hh, Function.update_self]
      exact Bool.or_true _
    · rw [(p.closeHandle_wire (Bool.eq_false_iff.2 hw) false).2]
      exact (if_neg hw).symm

private theorem foldlM_setAsClosed {fuel : Nat} {blockflag : Bool} {l : List (Nat × Nat)} {p p' : Process}
    (h : l.foldlM (fun p e => ConnType.setAsClosed (tcpHandle e.2) fuel blockflag p) p = .ok p') :
    p.Evolves p' ∧ p'.allocated = p.allocated ∧ (∀ id, id ∉ l.map Prod.snd → p'.handles id = p.handles id) ∧
      (∀ id, (p'.handles id).closedWr = true ↔ (p.handles id).closedWr = true ∨ id ∈ l.map Prod.snd) ∧
      ∀ id ∈ l.map Prod.snd, (p'.handles id).eos = eosAfter (p.handles id) := by
  induction l generalizing p with
  | nil =>
    cases h
    exact ⟨.refl, rfl, fun _ _ => rfl, by simp, nofun⟩
  | cons e l ih =>
    rw [List.foldlM_cons] at h
    obtain ⟨p1, h1, h⟩ := bind_eq_ok.1 h
    obtain ⟨honly, hwr, heos⟩ := setAsClosed_only h1
    obtain ⟨he, hn, hothers, hiff, hsent⟩ := ih h
    refine ⟨honly.evolves.trans he, hn.trans honly.allocated, fun id hid => ?_, fun id => ?_, fun id hid => ?_⟩
    · obtain ⟨h2, h3⟩ := not_or.1 (mt List.mem_cons.2 hid)
      rw [hothers id h3, honly.others id h2]
    · rw [hiff, List.map_cons, List.mem_cons]
      by_cases hid : id = e.2
      · rw [hid, hwr]
        simp
      · rw [honly.others id hid]
        simp [hid]
    · by_cases hin : id ∈ l.map Prod.snd
      · rw [hsent id hin]
        by_cases hid : id = e.2
        · rw [hid, eosAfter, hwr, if_pos rfl, heos]
        · rw [honly.others id hid]
      · obtain rfl : id = e.2 := (List.mem_cons.1 hid).resolve_right hin
        rw [hothers _ hin, heos]

private theorem foldlM_setAsClosed_mono {fuel fuel' : Nat} (hle : fuel ≤ fuel') {l : List (Nat × Nat)} {p p' : Process}
    (h : l.foldlM (fun p e => ConnType.setAsClosed (tcpHandle e.2) fuel true p) p = .ok p') :
    l.foldlM (fun p e => ConnType.setAsClosed (tcpHandle e.2) fuel' true p) p = .ok p' := by
  induction l generalizing p with
  | nil => exact h
  | cons e l ih =>
    rw [List.foldlM_cons] at h ⊢
    obtain ⟨p1, h1, h⟩ := bind_eq_ok.1 h
    rw [ConnType.setAsClosed_mono hle h1, bind_ok]
    exact ih h

/-- A walk over handles that are open for reading returns exactly when the draining of each of them ends, and
then their read sides are closed. -/
private theorem foldlM_drains {l : List (Nat × Nat)} (hl : (l.map Prod.snd).Nodup) {p : Process} (hi : p.Inv)
    (hopen : ∀ e ∈ l, e.2 < p.allocated ∧ (p.handles e.2).closedRd = false ∧ NoError (p.handles e.2).incoming) :
    (∃ fuel p', l.foldlM (fun p e => ConnType.setAsClosed (tcpHandle e.2) fuel true p) p = .ok p' ∧
      ∀ e ∈ l, (p'.handles e.2).closedRd = true) ↔ ∀ e ∈ l, p.Drains e.2 := by
  induction l generalizing p with
  | nil =>
    exact ⟨fun _ e he => absurd he (List.not_mem_nil), fun _ => ⟨0, p, rfl, fun e he => absurd he List.not_mem_nil⟩⟩
  | cons e l ih =>
    obtain ⟨hid, hrd, hs⟩ := hopen e (List.mem_cons_self ..)
    obtain ⟨hnotin, hnodup⟩ := List.nodup_cons.1 hl
    obtain ⟨hyes, hno⟩ := setAsClosed_drains hi hid hrd hs
    have hne : ∀ e' ∈ l, e'.2 ≠ e.2 := by
      intro e' he' heq
      exact hnotin (heq ▸ List.mem_map_of_mem he')
    -- what is known of the other handles when the first one has been closed
    have hrest : ∀ {fuel p1}, ConnType.setAsClosed (tcpHandle e.2) fuel true p = .ok p1 →
        p1.Inv ∧ (∀ e' ∈ l, e'.2 < p1.allocated ∧ (p1.handles e'.2).closedRd = false ∧
          NoError (p1.handles e'.2).incoming) ∧ ∀ e' ∈ l, (p1.Drains e'.2 ↔ p.Drains e'.2) := by
      intro fuel p1 h1
      obtain ⟨honly, -⟩ := setAsClosed_only h1
      refine ⟨inv_evolves hi honly.evolves, fun e' he' => ?_, fun e' he' => ?_⟩
      · rw [honly.allocated, honly.others _ (hne e' he')]
        exact hopen e' (List.mem_cons_of_mem _ he')
      · rw [Drains, Drains, honly.others _ (hne e' he'), honly.garbage]
    constructor
    · rintro ⟨fuel, p', h, hclosed⟩
      rw [List.foldlM_cons] at h
      obtain ⟨p1, h1, h⟩ := bind_eq_ok.1 h
      obtain ⟨hi1, hopen1, hiff⟩ := hrest h1
      have hd : p.Drains e.2 := by
        by_contra hd
        obtain ⟨st, h2, -⟩ := hno hd fuel
        rw [h1] at h2
        cases h2
      have hdl := (ih hnodup hi1 hopen1).1 ⟨fuel, p', h, fun e' he' => hclosed e' (List.mem_cons_of_mem _ he')⟩
      exact List.forall_mem_cons.2 ⟨hd, fun e' he' => (hiff e' he').1 (hdl e' he')⟩
    · intro hd
      obtain ⟨hd, hdl⟩ := List.forall_mem_cons.1 hd
      obtain ⟨fuel1, p1, h1, hc1⟩ := hyes hd
      obtain ⟨hi1, hopen1, hiff⟩ := hrest h1
      obtain ⟨fuel2, p2, h2, hc2⟩ := (ih hnodup hi1 hopen1).2 fun e' he' => (hiff e' he').2 (hdl e' he')
      -- enough turns for both
      have h1' := ConnType.setAsClosed_mono (Nat.le_max_left fuel1 fuel2) h1
      have h2' := foldlM_setAsClosed_mono (Nat.le_max_right fuel1 fuel2) h2
      refine ⟨max fuel1 fuel2, p2, ?_, List.forall_mem_cons.2 ⟨?_, hc2⟩⟩
      · rw [List.foldlM_cons, h1', bind_ok, h2']
      · rw [(foldlM_setAsClosed h2).2.2.1 _ hnotin]
        exact hc1

end Process

/-- In every state of every run, when no read on an open connection fails: `setAsClosed` with draining returns
from a connection of the table, with its read side closed, exactly when the headers of its stream lead to an
EOS; and `finalize` does so for all of them exactly when this is so for each. -/
theorem finalize_drains_iff {s : App} (h : s.Reachable)
    (hs : ∀ fd id, s.proc.conn.connections.find? fd = some id → NoError (s.proc.handles id).incoming) :
    (∀ fd id, s.proc.conn.connections.find? fd = some id →
      ((∃ fuel p, ConnType.setAsClosed (tcpHandle id) fuel true s.proc = .ok p ∧ (p.handles id).closedRd = true) ↔
        s.proc.Drains id)) ∧
    ((∃ fuel p, s.proc.finalize fuel true = .ok p ∧
        ∀ fd id, s.proc.conn.connections.find? fd = some id → (p.handles id).closedRd = true) ↔
      ∀ fd id, s.proc.conn.connections.find? fd = some id → s.proc.Drains id) := by
  have hi := h.inv
  have hentry : ∀ {fd id}, s.proc.conn.connections.find? fd = some id →
      id < s.proc.allocated ∧ (s.proc.handles id).closedRd = false := fun he =>
    ⟨(hi.1.entry _ _ he).1, (hi.1.entry _ _ he).2.2⟩
  refine ⟨fun fd id he => ?_, ?_⟩
  · obtain ⟨hid, hrd⟩ := hentry he
    obtain ⟨hyes, hno⟩ := Process.setAsClosed_drains hi hid hrd (hs fd id he)
    refine ⟨?_, hyes⟩
    rintro ⟨fuel, p, h1, -⟩
    by_contra hd
    obtain ⟨st, h2, -⟩ := hno hd fuel
    rw [h1] at h2
    cases h2
  · -- the entries of the table are different handles
    have hnodup : (s.proc.conn.connections.entries.map Prod.snd).Nodup := by
      refine List.Nodup.map_on ?_ s.proc.conn.connections.entries_nodup
      rintro ⟨fd, id⟩ he ⟨fd', id'⟩ he' rfl
      obtain ⟨-, h1, -⟩ := hi.1.entry fd _ (OrdMap.mem_entries.1 he)
      obtain ⟨-, h2, -⟩ := hi.1.entry fd' _ (OrdMap.mem_entries.1 he')
      rw [h1] at h2
      cases h2
      rfl
    have hopen : ∀ e ∈ s.proc.conn.connections.entries, e.2 < s.proc.allocated ∧
        (s.proc.handles e.2).closedRd = false ∧ NoError (s.proc.handles e.2).incoming := by
      rintro ⟨fd, id⟩ he
      have he := OrdMap.mem_entries.1 he
      exact ⟨(hentry he).1, (hentry he).2, hs fd id he⟩
    have hiff := Process.foldlM_drains hnodup hi hopen
    simp only [Prod.forall, OrdMap.mem_entries] at hiff
    exact hiff

/-- A connection on which a message of one byte and then EOS come in. -/
theorem finalize_drains_iff_run : ∃ s : App, ∃ fuel p, s.proc.finalize fuel true = .ok p ∧
    (p.handles 0).closedRd = true := by
  let incoming : List SockArrival := [.piece 0 [0, 0, 0, 0, 0, 0, 1, 7, 0, 0], .piece 0 [0, 0, 0, 0, 0]]
  have h0 : App.Reachable {} := .start ⟨fun _ => 0, rfl, fun _ => rfl⟩
  have h1 := Runs.Reach.next (Op.connect 0 (some { fd := 3, incoming := incoming })) h0 rfl
  have htable : ∀ fd id, OrdMap.find? (({} : OrdMap Nat Nat).insert 3 0) fd = some id → id = 0 := by
    intro fd id he
    rw [OrdMap.find?_insert] at he
    split at he
    · exact (Option.some.inj he).symm
    · cases he
  have heos : ReachesEos (fun _ => 0) false [0, 0, 0, 0, 0, 0, 0, 0] := by
    rw [ReachesEos, if_neg (by decide)]
    exact Or.inl rfl
  have hdrains : DrainsToEos (fun _ => 0) (false, 0) incoming := by
    rw [DrainsToEos, if_neg (by decide), ReachesEos, if_neg (by decide)]
    exact Or.inr heos
  have hiff := (finalize_drains_iff h1 fun fd id he e t h => by
    rw [htable fd id he] at h
    cases h).2
  obtain ⟨fuel, p, hp, hclosed⟩ := hiff.2 fun fd id he => by
    rw [htable fd id he]
    exact hdrains
  exact ⟨_, fuel, p, hp, hclosed 3 0 rfl⟩

/-- The peer goes away without EOS: no number of turns leaves the loop, and `finalize` does not return. -/
theorem finalize_hangs : ∃ s : App, s.Reachable ∧ s.proc.conn.connections.find? 3 = some 0 ∧
    (s.proc.handles 0).incoming = [.eof] ∧
    ∀ fuel, s.proc.finalize fuel true = .error .outOfFuel := by
  have h0 : App.Reachable {} := .start ⟨fun _ => 0, rfl, fun _ => rfl⟩
  have h1 := Runs.Reach.next (Op.connect 0 (some { fd := 3, incoming := [.eof] })) h0 rfl
  refine ⟨_, h1, rfl, rfl, fun fuel => ?_⟩
  have hs : NoError [.eof] := by
    intro e t h
    cases h
  have hend : ¬ ReachesEos (fun _ => 0) true [] := by
    rw [ReachesEos, if_pos (by decide)]
    rintro ⟨-, hne, -⟩
    exact hne rfl
  obtain ⟨st, he, hst⟩ := (@Process.setAsClosed_drains _ (App.Reachable.inv h1) 0 (by decide) rfl hs).2 hend fuel
  rw [hst (List.cons_ne_nil _ _)] at he
  exact congrArg (· >>= pure) he

/-- EOS has been sent once on the handle, and the whole of it is on the stream. -/
structure Process.GotEos (p : Process) (id : Nat) : Prop where
  closedWr : (p.handles id).closedWr = true
  once : p.log.count (.eos id) = 1
  whole : (p.handles id).eos.map Prod.snd = [Process.eosHeader]
  wire : Process.eosHeader <:+: (p.handles id).wire

/-- In every run that ends with `finalize`: the whole of EOS has been sent on every connection exactly once and
its write side closed exactly when, before `finalize`, the write side was closed of every connection whose read
side was, and the kernel takes the eight bytes of EOS whenever it is sent. -/
theorem finalize_eos_iff {s : App} (h : s.Reachable) {fuel : Nat} {blockflag : Bool} {p : Process}
    (hf : s.proc.finalize fuel blockflag = .ok p) :
    (∀ id < s.proc.allocated, p.GotEos id) ↔
      ∀ id < s.proc.allocated, ((s.proc.handles id).closedRd = true → (s.proc.handles id).closedWr = true) ∧
        TakesAll sizeofSizeT (s.proc.handles id).eosAnswers := by
  obtain ⟨hev, hn, hothers, hiff, hsent⟩ := Process.foldlM_setAsClosed hf
  have hi := h.inv
  have hp := Process.inv_evolves hi hev
  have heosp := Process.eosInv_evolves hi h.eosInv hev
  -- the handles of the table are those whose read side is open
  have hlisted : ∀ id < s.proc.allocated,
      id ∈ s.proc.conn.connections.entries.map Prod.snd ↔ (s.proc.handles id).closedRd = false := by
    intro id hid
    constructor
    · intro hm
      obtain ⟨⟨fd, i⟩, he, rfl⟩ := List.mem_map.1 hm
      exact (hi.1.entry fd i (OrdMap.mem_entries.1 he)).2.2
    · intro hrd
      obtain ⟨fd, -, he⟩ := hi.1.listed id hid hrd
      exact List.mem_map.2 ⟨(fd, id), OrdMap.mem_entries.2 he, rfl⟩
  refine forall₂_congr fun id hid => ?_
  have hcount := hp.2.eos id (hn.symm ▸ hid)
  change p.log.count (.eos id) = if (p.handles id).closedWr then 1 else 0 at hcount
  have hwr := hiff id
  rw [hlisted id hid] at hwr
  have himp : (p.handles id).closedWr = true ↔
      ((s.proc.handles id).closedRd = true → (s.proc.handles id).closedWr = true) := by
    rw [hwr]
    cases (s.proc.handles id).closedRd <;> simp
  -- what came onto the stream is what the kernel took
  have hrecord : (p.handles id).closedWr = true →
      (p.handles id).eos =
        [((s.proc.handles id).eosAnswers, (writen (s.proc.handles id).eosAnswers Process.eosHeader).2.1)] := by
    intro hclosed
    obtain ⟨hopen, hbefore⟩ := h.eosInv id hid
    cases hw : (s.proc.handles id).closedWr with
    | true =>
      obtain ⟨as, heos, -⟩ := hbefore hw
      have hkept : (p.handles id).eos = (s.proc.handles id).eos := by
        by_cases hin : id ∈ s.proc.conn.connections.entries.map Prod.snd
        · rw [hsent id hin, Process.eosAfter, if_pos hw]
        · rw [hothers id hin]
      rw [hkept, HandleTCP.eosAnswers, heos]
    | false =>
      have hrd : (s.proc.handles id).closedRd = false := (hwr.1 hclosed).resolve_left (by simp [hw])
      have hfd : (s.proc.handles id).fd ≠ none := fun hnone => by
        have := ((hi.1.noFd id hid).1 hnone).2
        rw [show (s.proc.control id).closedWr = (s.proc.handles id).closedWr from rfl, hw] at this
        cases this
      rw [hsent id ((hlisted id hid).2 hrd), Process.eosAfter, if_neg (by simp [hw]), (Process.sendEOS_record hfd).1,
        HandleTCP.eosAnswers, hopen hw]
      rfl
  have htakes := writen_whole_iff (s.proc.handles id).eosAnswers Process.eosHeader
  rw [Process.eosHeader, List.length_replicate] at htakes
  constructor
  · intro hgot
    refine ⟨himp.1 hgot.closedWr, htakes.1 ?_⟩
    have hwhole := hgot.whole
    rw [hrecord hgot.closedWr] at hwhole
    exact (List.cons.inj hwhole).1
  · rintro ⟨hrdwr, htaken⟩
    have hclosed := himp.2 hrdwr
    have hall := htakes.2 htaken
    refine ⟨hclosed, by rw [hcount, if_pos hclosed], ?_, ?_⟩
    · rw [hrecord hclosed]
      exact congrArg (fun bs => [bs]) hall
    · obtain ⟨as, heos, hin⟩ := (heosp id (hn.symm ▸ hid)).2 hclosed
      rw [hrecord hclosed] at heos
      obtain rfl : (s.proc.handles id).eosAnswers = as := congrArg Prod.fst (List.cons.inj heos).1
      change (writen (s.proc.handles id).eosAnswers Process.eosHeader).2.1 = Process.eosHeader at hall
      rwa [hall] at hin

/-- A connection on which the flag and a message have been sent, and of whose EOS the kernel takes three bytes
and then the rest. -/
theorem finalize_eos_iff_run : ∃ s : App, s.Reachable ∧ ∃ p, s.proc.finalize 1 false = .ok p ∧ p.GotEos 0 ∧
    (p.handles 0).wire =
      Words.toBE sizeofSizeT 4 ++ [0, 0, 0, 0] ++ Words.toBE sizeofSizeT 1 ++ [7] ++ Process.eosHeader := by
  have h0 : App.Reachable {} := .start ⟨fun _ => 0, rfl, fun _ => rfl⟩
  have h1 :=
    Runs.Reach.next (Op.connect 0 (some { fd := 3, answers := [.moved 12, .moved 5, .moved 4, .moved 3] })) h0 rfl
  have h2 := Runs.Reach.next (Op.send 0 [7]) h1 rfl
  refine ⟨_, h2, _, rfl, (@finalize_eos_iff _ h2 1 false _ rfl).2 ?_ 0 Nat.one_pos, rfl⟩
  intro id hid
  rw [Nat.lt_one_iff.1 hid]
  refine ⟨fun hrd => absurd hrd Bool.false_ne_true, ?_⟩
  exact Or.inr ⟨by decide, trivial⟩

/-- The peer closes first and the application only reads its EOS: `finalize` sends none, and nothing but the
flag of `connect` is on the stream. -/
theorem finalize_no_eos : ∃ s : App, s.Reachable ∧ ∃ p, s.proc.finalize 1 false = .ok p ∧ 0 < s.proc.allocated ∧
    p.log.count (.eos 0) = 0 ∧ (p.handles 0).closedWr = false ∧ (p.handles 0).eos = [] ∧
    (p.handles 0).wire = Words.toBE sizeofSizeT 4 ++ [0, 0, 0, 0] := by
  have h0 : App.Reachable {} := .start ⟨fun _ => 0, rfl, fun _ => rfl⟩
  have h1 := Runs.Reach.next (Op.connect 0 (some { fd := 3, incoming := [.piece 0 [0, 0, 0, 0, 0, 0, 0]] })) h0 rfl
  have h2 := Runs.Reach.next (Op.probe 0 0 true) h1 rfl
  exact ⟨_, h2, _, rfl, by decide, rfl, rfl, rfl, rfl⟩

end Mtcl
