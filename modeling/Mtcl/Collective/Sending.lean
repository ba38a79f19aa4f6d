import Mtcl.Tcp.Stream

/-!
# Sending to participants

`record vt` is the table `vt` of virtual functions with everything written down that a sender does to the
handles: the messages it hands to `send`, with the results, and the closings of the write side.  The link to a
participant carries the messages whose `send` was successful (`sentTo`), and the end when the side has been
closed (`closedTo`).

A link that is lost stays lost (`Permanent`): once a `send` to a participant has failed, so do the later ones.
Over TCP, when the kernel always moves something, no link is lost and what is written down is on the streams
(`Wired`).
-/

namespace Mtcl

variable {H W : Type}

/-- What a sender does to the handle of a participant. -/
inductive Sent (H : Type)
  | message (h : H) (m : Bytes) (r : Ret)
  | eos (h : H)

/-- The same virtual functions, with the messages sent and the closings of the write side written down. -/
def record (vt : H → CommunicationHandle W) (h : H) : CommunicationHandle (W × List (Sent H)) where
  base s := (vt h).base s.1
  setProbed pr s := ((vt h).setProbed pr s.1, s.2)
  probe size blocking s := do
    let (r, size, w) ← (vt h).probe size blocking s.1
    return (r, size, (w, s.2))
  receive n s := do
    let (r, bs, w) ← (vt h).receive n s.1
    return (r, bs, (w, s.2))
  send bs s := do
    let (r, w) ← (vt h).send bs s.1
    return (r, (w, s.2 ++ [.message h bs r]))
  close wr rd s := do
    let w ← (vt h).close wr rd s.1
    return (w, s.2 ++ if wr then [.eos h] else [])
  yield s := do
    let w ← (vt h).yield s.1
    return (w, s.2)
  incrementReferenceCounter s := do
    let w ← (vt h).incrementReferenceCounter s.1
    return (w, s.2)
  decrementReferenceCounter s := do
    let w ← (vt h).decrementReferenceCounter s.1
    return (w, s.2)

/-- `for(auto& h : participants) h->close(true, false)`. -/
def closeAll (vt : H → CommunicationHandle W) : List H → W → Except Stop W
  | [], w => .ok w
  | h :: hs, w => do
    let w ← (vt h).close true false w
    closeAll vt hs w

/-! ### What a link carries -/

section

variable [DecidableEq H]

/-- The messages that have been sent successfully on the handle. -/
def sentTo (h : H) (log : List (Sent H)) : List Bytes :=
  log.filterMap fun
    | .message j m (.ok _) => if j = h then some m else none
    | _ => none

/-- The write side of the handle has been closed. -/
def closedTo (h : H) (log : List (Sent H)) : Bool :=
  log.any fun
    | .eos j => j = h
    | _ => false

/-- A `send` on the handle has failed. -/
def Lost (h : H) (log : List (Sent H)) : Prop := ∃ m e, Sent.message h m (.error e) ∈ log

/-- Once a `send` on the handle has failed, so do the later ones. -/
def StaysLost (h : H) (log : List (Sent H)) : Prop :=
  log.Pairwise fun a b => ∀ m e m' n, a = .message h m (.error e) → b ≠ .message h m' (.ok n)

/-- The same on every handle. -/
def Permanent (log : List (Sent H)) : Prop :=
  log.Pairwise fun a b => ∀ h m e m' n, a = .message h m (.error e) → b ≠ .message h m' (.ok n)

variable {h j : H} {log l : List (Sent H)}

@[simp] theorem sentTo_append (h : H) (log l : List (Sent H)) : sentTo h (log ++ l) = sentTo h log ++ sentTo h l :=
  List.filterMap_append

@[simp] theorem closedTo_append (h : H) (log l : List (Sent H)) :
    closedTo h (log ++ l) = (closedTo h log || closedTo h l) := by
  simp [closedTo]

theorem sentTo_message (m : Bytes) (n : Nat) : sentTo h [.message h m (.ok n)] = [m] := by
  simp [sentTo]

theorem sentTo_message_of_ne (hj : j ≠ h) (m : Bytes) (r : Ret) : sentTo h [.message j m r] = [] := by
  cases r <;> simp [sentTo, hj]

@[simp] theorem sentTo_failed (j : H) (m : Bytes) (e : Errno) : sentTo h [.message j m (.error e)] = [] := rfl

@[simp] theorem closedTo_message (j : H) (m : Bytes) (r : Ret) : closedTo h [.message j m r] = false := by
  simp [closedTo]

@[simp] theorem sentTo_eos (hs : List H) : sentTo h (hs.map .eos) = [] := by
  induction hs with
  | nil => rfl
  | cons j hs ih => exact ih

theorem closedTo_eos (hs : List H) : closedTo h (hs.map .eos) = true ↔ h ∈ hs := by
  simp [closedTo]

omit [DecidableEq H]

theorem Lost.append (hl : Lost h log) (l : List (Sent H)) : Lost h (log ++ l) := by
  obtain ⟨m, e, he⟩ := hl
  exact ⟨m, e, List.mem_append_left _ he⟩

theorem Permanent.of_append (hp : Permanent (log ++ l)) : Permanent log := (List.pairwise_append.1 hp).1

/-- A handle on which a message has just gone out has not been lost before. -/
theorem Permanent.not_lost {m : Bytes} {n : Nat} (hp : Permanent (log ++ [.message h m (.ok n)])) : ¬ Lost h log := by
  rintro ⟨m', e, he⟩
  exact (List.pairwise_append.1 hp).2.2 _ he _ (List.mem_singleton_self _) h m' e m n rfl rfl

end

/-! ### What is written down -/

section

variable {vt : H → CommunicationHandle W} {s s' : W × List (Sent H)}

theorem record_send {h : H} {m : Bytes} {r : Ret} (he : (record vt h).send m s = .ok (r, s')) :
    (vt h).send m s.1 = .ok (r, s'.1) ∧ s'.2 = s.2 ++ [.message h m r] := by
  obtain ⟨⟨r1, w1⟩, h1, he⟩ := bind_eq_ok.1 he
  cases he
  exact ⟨h1, rfl⟩

/-- What is written down is put behind the rest. -/
theorem record_keeps (vt : H → CommunicationHandle W) (h : H) (l : List (Sent H)) :
    (record vt h).Keeps fun s : W × List (Sent H) => l <+: s.2 where
  setProbed _ _ hl := hl
  probe hl he := by
    obtain ⟨_, -, he⟩ := bind_eq_ok.1 he
    cases he
    exact hl
  receive hl he := by
    obtain ⟨_, -, he⟩ := bind_eq_ok.1 he
    cases he
    exact hl
  send hl he := by
    rw [(record_send he).2]
    exact hl.trans (List.prefix_append ..)
  close hl he := by
    obtain ⟨_, -, he⟩ := bind_eq_ok.1 he
    cases he
    exact hl.trans (List.prefix_append ..)
  yield hl he := by
    obtain ⟨_, -, he⟩ := bind_eq_ok.1 he
    cases he
    exact hl
  incrementReferenceCounter hl he := by
    obtain ⟨_, -, he⟩ := bind_eq_ok.1 he
    cases he
    exact hl
  decrementReferenceCounter hl he := by
    obtain ⟨_, -, he⟩ := bind_eq_ok.1 he
    cases he
    exact hl

/-- Closing all participants is written down for each of them. -/
theorem closeAll_record {hs : List H} (he : closeAll (record vt) hs s = .ok s') : s'.2 = s.2 ++ hs.map .eos := by
  induction hs generalizing s with
  | nil =>
    cases he
    exact (List.append_nil _).symm
  | cons h hs ih =>
    obtain ⟨s1, h1, he⟩ := bind_eq_ok.1 he
    obtain ⟨w, -, h1⟩ := bind_eq_ok.1 h1
    cases h1
    rw [ih he, List.map_cons]
    exact List.append_assoc ..

end

/-! ### TCP -/

/-- What has been written down is on the streams of the handles, and those that have not been closed can be
written to. -/
def Wired (p : Process) (hs : List Nat) (s : Process × List (Sent Nat)) : Prop :=
  ∀ h ∈ hs, (s.1.handles h).wire = (p.handles h).wire ++ encode (closedTo h s.2) (sentTo h s.2) ∧
    (closedTo h s.2 = false → s.1.Writable h)

theorem Wired.start {p : Process} {hs : List Nat} (hp : ∀ h ∈ hs, p.Writable h) : Wired p hs (p, []) :=
  fun h hh => ⟨(List.append_nil _).symm, fun _ => hp h hh⟩

section

variable {p : Process} {hs : List Nat} {h : Nat} {s : Process × List (Sent Nat)}

private theorem Wired.other (hw : Wired p hs s) {q : Process} (honly : Process.Only h s.1 q) {e : Sent Nat}
    {j : Nat} (hj : j ∈ hs) (hne : j ≠ h) (he : sentTo j [e] = [] ∧ closedTo j [e] = false) :
    (q.handles j).wire = (p.handles j).wire ++ encode (closedTo j (s.2 ++ [e])) (sentTo j (s.2 ++ [e])) ∧
      (closedTo j (s.2 ++ [e]) = false → q.Writable j) := by
  obtain ⟨hwire, hopen⟩ := hw j hj
  have hsame := honly.others j hne
  rw [closedTo_append, sentTo_append, he.1, he.2, Bool.or_false, List.append_nil, hsame]
  refine ⟨hwire, fun hc => ?_⟩
  obtain ⟨⟨h1, h2, h3⟩, h4, h5⟩ := hopen hc
  refine ⟨⟨?_, ?_, ?_⟩, ?_, ?_⟩
  · rw [honly.allocated]
    exact h1
  all_goals rw [hsame]; assumption

/-- A message goes out on its stream. -/
theorem Wired.send (hw : Wired p hs s) (hh : h ∈ hs) (hopen : closedTo h s.2 = false) (m : Bytes) :
    ∃ q, (record tcpHandle h).send m s = .ok (.ok m.length, (q, s.2 ++ [.message h m (.ok m.length)])) ∧
      Wired p hs (q, s.2 ++ [.message h m (.ok m.length)]) := by
  obtain ⟨hwire, hwr⟩ := hw h hh
  obtain ⟨q, hcall, hq, hwire'⟩ := (hwr hopen).handle_send m
  refine ⟨q, ?_, fun j hj => ?_⟩
  · change ((tcpHandle h).send m s.1 >>= _) = _
    rw [hcall]
    rfl
  · by_cases hjh : j = h
    · subst hjh
      dsimp only
      rw [closedTo_append, sentTo_append, closedTo_message, sentTo_message, hopen]
      refine ⟨?_, fun _ => hq⟩
      rw [hwire', hwire, hopen, List.append_assoc]
      simp [encode]
    · exact hw.other ((Process.tcpHandle_only h s.1).send (.refl h s.1) hcall) hj hjh
        ⟨sentTo_message_of_ne (Ne.symm hjh) .., closedTo_message ..⟩

/-- Closing the handles puts EOS on their streams. -/
theorem Wired.closeAll (hw : Wired p hs s) {ks : List Nat} (hn : ks.Nodup)
    (hks : ∀ k ∈ ks, k ∈ hs ∧ closedTo k s.2 = false) :
    ∃ s', Mtcl.closeAll (record tcpHandle) ks s = .ok s' ∧ Wired p hs s' := by
  induction ks generalizing s with
  | nil => exact ⟨s, rfl, hw⟩
  | cons k ks ih =>
    obtain ⟨hk, hn⟩ := List.nodup_cons.1 hn
    obtain ⟨hmem, hopen⟩ := hks k (List.mem_cons_self ..)
    obtain ⟨hwire, hwr⟩ := hw k hmem
    obtain ⟨q, hcall, hwire'⟩ := (hwr hopen).handle_close
    have hw' : Wired p hs (q, s.2 ++ [.eos k]) := by
      intro j hj
      by_cases hjk : j = k
      · subst hjk
        have hclosed : closedTo j [.eos j] = true := (closedTo_eos [j]).2 (List.mem_singleton_self j)
        dsimp only
        rw [closedTo_append, sentTo_append, hclosed, show sentTo j [.eos j] = [] from sentTo_eos [j], hopen]
        refine ⟨?_, nofun⟩
        rw [hwire', hwire, hopen, List.append_assoc]
        simp [encode]
      · refine hw.other ((Process.tcpHandle_only k s.1).close (.refl k s.1) hcall) hj hjk ⟨sentTo_eos [k], ?_⟩
        exact Bool.eq_false_iff.2 fun h => hjk (List.mem_singleton.1 ((closedTo_eos [k]).1 h))
    obtain ⟨s', hrest, hs'⟩ := ih hw' hn fun j hj => by
      obtain ⟨h1, h2⟩ := hks j (List.mem_cons_of_mem _ hj)
      refine ⟨h1, ?_⟩
      dsimp only
      rw [closedTo_append, h2, Bool.false_or]
      refine Bool.eq_false_iff.2 fun h => hk ?_
      rw [← List.mem_singleton.1 ((closedTo_eos [k]).1 h)]
      exact hj
    refine ⟨s', ?_, hs'⟩
    change (((tcpHandle k).close true false s.1 >>= _) >>= _) = _
    rw [hcall]
    exact hrest

end

end Mtcl
