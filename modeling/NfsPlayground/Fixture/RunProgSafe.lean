import NfsPlayground.Fixture.RunProg

/-!
# What holds of concurrent calls of xfs_run_prog()

Of the mount (`Local`): a call is where the lock is held exactly when it owns it, and who owns it knows what the flag
and the mounts are; between the mount and the assignment they differ. Of the logs: one that exists belongs to a call
that has yet to remove it (`Owned`). Of the names: the calls have taken the numbers of the counter one after the other
(`Numbered`), so that they are distinct up to 2^32 calls. -/

namespace NfsPlayground.Fixture.RunProg

open Lines Procs Runs

variable {n : Nat} {hostbin : Bool} {m : Shared n} {me : Fin n} {p : At} {a : Answer}

/-! ## The mount -/

/-- The lock is held at the point. -/
def At.Holds : At → Prop
  | .test | .mkdir | .mount | .setMounted _ | .unlock _ => True
  | _ => False

/-- The mount has succeeded before the point is reached. -/
def At.Beyond : At → Prop
  | .kcalloc | .number _ | .kasprintf .. | .argv0 _ | .setup _ | .exec _ | .progInit _ | .execve _ | .running _
  | .dumpLog .. | .unlink .. => True
  | _ => False

/-- The flag says whether hostfs is mounted, and it is mounted once at most. -/
def Settled (m : Shared n) : Prop := m.mounts = if m.mounted then 1 else 0

/-- What the owner of the lock knows. -/
def Inside (m : Shared n) : At → Prop
  | .test => Settled m
  | .mkdir | .mount => m.mounted = false ∧ m.mounts = 0
  | .setMounted err => m.mounted = false ∧ m.mounts = if err = 0 then 1 else 0
  | .unlock err => Settled m ∧ (err = 0 → m.mounted = true)
  | _ => True

structure Local (m : Shared n) (i : Fin n) (p : At) : Prop where
  owner : m.lock = some i ↔ p.Holds
  inside : Inside m p
  beyond : p.Beyond → m.mounted = true

theorem inside_of_not_holds {q : At} (hq : ¬ q.Holds) : Inside m q := by
  cases q <;> first | trivial | exact absurd trivial hq

/-- A step of the owner of the lock that leaves the lock and what it protects as they are. -/
theorem Local.keep {q : At} (h : Local m me p) (hp : p.Holds) (hq : q.Holds) (hinside : Inside m q)
    (hbeyond : q.Beyond → m.mounted = true) : Local m me q :=
  ⟨iff_of_true (h.owner.2 hp) hq, hinside, hbeyond⟩

/-- A step without the lock. -/
theorem Local.free {q : At} (h : Local m me p) (hp : ¬ p.Holds) (hq : ¬ q.Holds) (hbeyond : q.Beyond → p.Beyond) :
    Local m me q :=
  ⟨iff_of_false (mt h.owner.1 hp) hq, inside_of_not_holds hq, fun hb => h.beyond (hbeyond hb)⟩

/-- What is said of a call does not depend on the counter and the logs. -/
theorem Local.congr {m' : Shared n} (h : Local m me p) (hlock : m'.lock = m.lock) (hmounted : m'.mounted = m.mounted)
    (hmounts : m'.mounts = m.mounts) : Local m' me p := by
  refine ⟨by rw [hlock]; exact h.owner, ?_, by rw [hmounted]; exact h.beyond⟩
  have hinside := h.inside
  cases p <;> first | trivial | simpa [Inside, Settled, hmounted, hmounts] using hinside

theorem ended_holds (seq ret : Int) : ¬ (ended seq ret).Holds := by
  unfold ended
  split <;> exact id

theorem settled_of_zero (hmounted : m.mounted = false) (hmounts : m.mounts = 0) : Settled m := by
  simp [Settled, hmounted, hmounts]

/-- A call keeps what is said of it. -/
theorem local_next (hfree : m.lock = none → Settled m) (h : Local m me p) :
    ((next hostbin me m p a).1.lock = none → Settled (next hostbin me m p a).1) ∧
      Local (next hostbin me m p a).1 me (next hostbin me m p a).2 := by
  have howner := h.owner
  have hinside := h.inside
  have hbeyond := h.beyond
  cases p with
  | entry =>
    refine ⟨hfree, ?_⟩
    simp only [next]
    split <;> exact h.free id id id
  | lock =>
    simp only [next]
    split
    · rename_i hnone
      exact ⟨fun h => by simp at h, ⟨by simp [At.Holds], hfree hnone, False.elim⟩⟩
    · exact ⟨hfree, h⟩
  | test =>
    refine ⟨hfree, ?_⟩
    simp only [next]
    split
    · rename_i hmounted
      exact h.keep trivial trivial ⟨hinside, fun _ => hmounted⟩ False.elim
    · rename_i hmounted
      have hfalse : m.mounted = false := by simpa using hmounted
      exact h.keep trivial trivial ⟨hfalse, by simpa [Inside, Settled, hfalse] using hinside⟩ False.elim
  | mkdir =>
    refine ⟨hfree, ?_⟩
    simp only [next]
    split
    · exact h.keep trivial trivial hinside False.elim
    · rename_i herr
      exact h.keep trivial trivial ⟨hinside.1, by rw [if_neg herr]; exact hinside.2⟩ False.elim
  | mount =>
    have hlock : m.lock = some me := howner.2 trivial
    by_cases herr : a.err = 0
    · simp only [next, if_pos herr]
      exact ⟨by simp [hlock], ⟨by simp [hlock, At.Holds], ⟨hinside.1, by simp [herr, hinside.2]⟩, False.elim⟩⟩
    · simp only [next, if_neg herr]
      exact ⟨hfree, h.keep trivial trivial ⟨hinside.1, by rw [if_neg herr]; exact hinside.2⟩ False.elim⟩
  | setMounted err =>
    have hlock : m.lock = some me := howner.2 trivial
    refine ⟨by simp [next, hlock], ⟨by simp [next, hlock, At.Holds], ⟨?_, by simp [next]⟩, False.elim⟩⟩
    simp only [next, Settled, hinside.2, decide_eq_true_eq]
  | unlock err =>
    refine ⟨fun _ => hinside.1, ?_⟩
    simp only [next]
    split
    · rename_i herr
      exact ⟨by simp [At.Holds], trivial, fun _ => hinside.2 herr⟩
    · exact ⟨by simp [At.Holds], trivial, False.elim⟩
  | kcalloc => exact ⟨hfree, h.free id id id⟩
  | number argv => exact ⟨hfree, Local.congr (m := m) (h.free id id id) rfl rfl rfl⟩
  | kasprintf argv seq =>
    refine ⟨hfree, ?_⟩
    simp only [next]
    split <;> exact h.free id id fun _ => trivial
  | argv0 seq =>
    refine ⟨hfree, ?_⟩
    simp only [next]
    split <;> exact h.free id id fun _ => trivial
  | setup seq =>
    refine ⟨hfree, ?_⟩
    simp only [next]
    split <;> exact h.free id id fun _ => trivial
  | exec seq =>
    refine ⟨hfree, ?_⟩
    simp only [next]
    split
    · exact h.free id id id
    · exact h.free id (ended_holds seq a.err) fun _ => trivial
  | progInit seq =>
    simp only [next]
    split
    · exact ⟨hfree, Local.congr (m := m) (h.free id id id) rfl rfl rfl⟩
    · exact ⟨hfree, h.free id (ended_holds seq a.err) fun _ => trivial⟩
  | execve seq =>
    refine ⟨hfree, ?_⟩
    simp only [next]
    split
    · exact h.free id id id
    · exact h.free id (ended_holds seq a.err) fun _ => trivial
  | running seq => exact ⟨hfree, h.free id (ended_holds seq a.err) fun _ => trivial⟩
  | dumpLog seq ret => exact ⟨hfree, h.free id id id⟩
  | unlink seq ret => exact ⟨hfree, Local.congr (m := m) (h.free id id False.elim) rfl rfl rfl⟩
  | out ret => exact ⟨hfree, h.free id id id⟩
  | returned ret => exact ⟨hfree, h⟩

/-- Without the lock, and where it cannot be taken, a step leaves it and what it protects as they are. -/
theorem next_unlocked (hostbin : Bool) (me : Fin n) (a : Answer) (hp : ¬ p.Holds) (hlock : m.lock ≠ none) :
    (next hostbin me m p a).1.lock = m.lock ∧
    (next hostbin me m p a).1.mounted = m.mounted ∧ (next hostbin me m p a).1.mounts = m.mounts := by
  cases p with
  | test | mkdir | mount | setMounted | unlock => exact absurd trivial hp
  | lock => simp [next, hlock]
  | progInit =>
    simp only [next]
    split <;> exact ⟨rfl, rfl, rfl⟩
  | _ => exact ⟨rfl, rfl, rfl⟩

/-- A call takes the lock for itself or gives it up. -/
theorem next_lock (hostbin : Bool) (me : Fin n) (m : Shared n) (p : At) (a : Answer) :
    (next hostbin me m p a).1.lock = m.lock ∨ (next hostbin me m p a).1.lock = some me ∨
    (next hostbin me m p a).1.lock = none := by
  cases p with
  | lock =>
    simp only [next]
    split
    · exact Or.inr (Or.inl rfl)
    · exact Or.inl rfl
  | mount | progInit =>
    simp only [next]
    split <;> exact Or.inl rfl
  | unlock => exact Or.inr (Or.inr rfl)
  | _ => exact Or.inl rfl

/-- The flag is never taken back. -/
theorem next_mounted (h : Local m me p) (hmounted : m.mounted = true) : (next hostbin me m p a).1.mounted = true := by
  cases p with
  | setMounted err =>
    have hfalse := h.inside.1
    rw [hmounted] at hfalse
    cases hfalse
  | lock | mount | progInit =>
    simp only [next]
    split <;> exact hmounted
  | _ => exact hmounted

/-- A step of another call leaves what is said of this one. -/
theorem local_other (h : Local m me p) (j : Fin n) (q : At) (hj : j ≠ me) (hq : Local m j q) :
    Local (next hostbin me m p a).1 j q := by
  by_cases hholds : q.Holds
  · have hlock : m.lock = some j := hq.owner.2 hholds
    have hp : ¬ p.Holds := fun hp => hj (Option.some.inj (hlock.symm.trans (h.owner.2 hp)))
    obtain ⟨hl, hmounted, hmounts⟩ := next_unlocked (m := m) hostbin me a hp (by simp [hlock])
    exact hq.congr hl hmounted hmounts
  · have hlock : m.lock ≠ some j := mt hq.owner.1 hholds
    refine ⟨iff_of_false ?_ hholds, inside_of_not_holds hholds, fun hb => next_mounted h (hq.beyond hb)⟩
    rcases next_lock hostbin me m p a with hl | hl | hl
    · rwa [hl]
    · rw [hl]
      exact fun he => hj (Option.some.inj he).symm
    · rw [hl]
      exact fun he => Option.some_ne_none j he.symm

variable {seq : Int} {logs : List Text}

/-- In every state of a run each call is where the lock, the flag and the mounts allow it to be. -/
theorem run_local (hostbin mounted : Bool) (seq : Int) (logs : List Text) (steps : List (Fin n × Answer)) :
    ((run hostbin mounted seq logs steps).shared.lock = none →
      Settled (run hostbin mounted seq logs steps).shared) ∧
    ∀ i, Local (run hostbin mounted seq logs steps).shared i ((run hostbin mounted seq logs steps).point i) := by
  refine exec_local (G := fun m => m.lock = none → Settled m) (L := Local) ?_ ?_ steps ?_ ?_
  · exact fun m i p a hfree h => local_next hfree h
  · exact fun m i p a _ h j q hj hq => local_other h j q hj hq
  · exact fun _ => rfl
  · exact fun i => ⟨by simp [start, At.Holds], trivial, False.elim⟩

/-! ## The logs -/

/-- The log that the call has yet to remove. -/
def At.owes : At → Option Int
  | .execve seq | .running seq | .dumpLog seq _ | .unlink seq _ => some seq
  | _ => none

/-- The number of the log that the call has in use. -/
def At.inUse : At → Option Int
  | .kasprintf _ seq | .argv0 seq | .setup seq | .exec seq | .progInit seq => some seq
  | p => p.owes

theorem ended_owes (seq ret : Int) : (ended seq ret).owes = some seq := by
  unfold ended
  split <;> rfl

/-- What exists after a step belongs to the call, or existed before and does not belong to it. -/
theorem next_logs {f : Text} (hf : f ∈ (next hostbin me m p a).1.logs) :
    (∃ seq, (next hostbin me m p a).2.owes = some seq ∧ f = logPath seq) ∨
      (f ∈ m.logs ∧ ∀ seq, p.owes = some seq → f ≠ logPath seq) := by
  have hother : ∀ {q : At}, p.owes = none ∨ p.owes = q.owes → f ∈ m.logs →
      (∃ seq, q.owes = some seq ∧ f = logPath seq) ∨ (f ∈ m.logs ∧ ∀ seq, p.owes = some seq → f ≠ logPath seq) := by
    rintro q (hp | hp) hmem
    · exact Or.inr ⟨hmem, by simp [hp]⟩
    · by_cases hq : ∃ seq, q.owes = some seq ∧ f = logPath seq
      · exact Or.inl hq
      · exact Or.inr ⟨hmem, fun seq hseq he => hq ⟨seq, hp ▸ hseq, he⟩⟩
  cases p with
  | progInit seq =>
    simp only [next] at hf ⊢
    split at hf
    · rename_i herr
      rcases List.mem_cons.1 hf with rfl | hmem
      · exact Or.inl ⟨seq, by simp [herr, At.owes], rfl⟩
      · exact hother (Or.inl rfl) hmem
    · exact hother (Or.inl rfl) hf
  | execve seq =>
    refine hother (Or.inr ?_) hf
    simp only [next]
    split
    · rfl
    · exact (ended_owes seq a.err).symm
  | running seq => exact hother (Or.inr (ended_owes seq a.err).symm) hf
  | dumpLog seq ret => exact hother (Or.inr rfl) hf
  | unlink seq ret =>
    simp only [next, List.mem_filter, decide_eq_true_eq] at hf
    refine Or.inr ⟨hf.1, fun seq' hseq => ?_⟩
    cases hseq
    exact hf.2
  | lock | mount =>
    refine hother (Or.inl rfl) ?_
    simp only [next] at hf
    split at hf <;> exact hf
  | _ => exact hother (Or.inl rfl) hf

/-- A log that exists was there from the start, or belongs to a call that has yet to remove it. -/
def Owned (logs : List Text) (s : Procs.State (Fin n) (Shared n) At) : Prop :=
  ∀ f ∈ s.shared.logs, f ∈ logs ∨ ∃ i seq, (s.point i).owes = some seq ∧ f = logPath seq

theorem owned_step {s : Procs.State (Fin n) (Shared n) At} (h : Owned logs s) (x : Fin n × Answer) :
    Owned logs (Procs.step (next hostbin) s x).2 := by
  intro f hf
  rcases next_logs hf with ⟨seq, howes, rfl⟩ | ⟨hmem, hnot⟩
  · exact Or.inr ⟨x.1, seq, by rw [step_self]; exact howes, rfl⟩
  · refine (h f hmem).imp_right ?_
    rintro ⟨i, seq, howes, rfl⟩
    have hi : i ≠ x.1 := fun he => hnot seq (he ▸ howes) rfl
    exact ⟨i, seq, by rw [step_other s x hi]; exact howes, rfl⟩

theorem run_owned (hostbin mounted : Bool) (seq : Int) (logs : List Text) (steps : List (Fin n × Answer)) :
    Owned logs (run hostbin mounted seq logs steps) :=
  exec_inv' (I := Owned logs) (fun _ x h => owned_step h x) steps fun _ hf => Or.inl hf

/-! ## The names of the logs -/

theorem logPath_inj {s t : Int} (h : logPath s = logPath t) : s = t := by
  have htext : PyText.intText s = PyText.intText t := List.append_cancel_left (List.append_cancel_right h)
  have hs := PyText.pyInt_intText s
  rw [htext, PyText.pyInt_intText] at hs
  exact (Option.some.inj hs).symm

theorem toInt_add (s t : Int) : toInt (toInt s + t) = toInt (s + t) := Int.bmod_add_bmod

theorem toInt_toInt (s : Int) : toInt (toInt s) = toInt s := Int.bmod_bmod

/-- The number has not been taken yet. -/
def At.Before : At → Prop
  | .entry | .lock | .test | .mkdir | .mount | .setMounted _ | .unlock _ | .kcalloc | .number _ => True
  | _ => False

/-- The calls in `order` have taken the numbers that follow `seq`, one after the other. -/
structure Numbered (seq : Int) (s : Procs.State (Fin n) (Shared n) At) (order : List (Fin n)) : Prop where
  nodup : order.Nodup
  counter : toInt s.shared.seq = toInt (seq + order.length)
  before : ∀ i, (s.point i).Before → i ∉ order
  number : ∀ i t, (s.point i).inUse = some t → ∃ k : Nat, order[k]? = some i ∧ t = toInt (seq + k + 1)

theorem ended_before (seq ret : Int) : ¬ (ended seq ret).Before := by
  unfold ended
  split <;> exact id

theorem ended_inUse (seq ret : Int) : (ended seq ret).inUse = some seq := by
  unfold ended
  split <;> rfl

/-- Only one step moves the counter. -/
theorem next_seq (hp : ∀ argv, p ≠ .number argv) : (next hostbin me m p a).1.seq = m.seq := by
  cases p with
  | number argv => exact absurd rfl (hp argv)
  | lock | mount | progInit =>
    simp only [next]
    split <;> rfl
  | _ => rfl

/-- Any other leaves what the call has taken. -/
theorem next_number (hostbin : Bool) (me : Fin n) (m : Shared n) (a : Answer) (hp : ∀ argv, p ≠ .number argv) :
    ((next hostbin me m p a).2.Before → p.Before) ∧
    ∀ t, (next hostbin me m p a).2.inUse = some t → p.inUse = some t := by
  have hnone : ∀ {q : At}, q.inUse = none → ∀ t, q.inUse = some t → p.inUse = some t := by
    intro q hq t ht
    rw [hq] at ht
    cases ht
  have hended : ∀ {s ret : Int}, p.inUse = some s → ∀ t, (ended s ret).inUse = some t → p.inUse = some t := by
    intro s ret hs t ht
    rw [ended_inUse] at ht
    rw [hs, ht]
  cases p with
  | number argv => exact absurd rfl (hp argv)
  | entry | lock | test | mkdir | unlock =>
    simp only [next]
    split <;> exact ⟨fun _ => trivial, hnone rfl⟩
  | mount | setMounted | kcalloc => exact ⟨fun _ => trivial, hnone rfl⟩
  | kasprintf | argv0 | setup =>
    simp only [next]
    split
    · exact ⟨False.elim, fun _ ht => ht⟩
    · exact ⟨False.elim, hnone rfl⟩
  | exec seq | progInit seq | execve seq =>
    simp only [next]
    split
    · exact ⟨False.elim, fun _ ht => ht⟩
    · exact ⟨fun h => absurd h (ended_before seq a.err), hended rfl⟩
  | running seq => exact ⟨fun h => absurd h (ended_before seq a.err), hended rfl⟩
  | dumpLog => exact ⟨False.elim, fun _ ht => ht⟩
  | unlink | out | returned => exact ⟨False.elim, hnone rfl⟩

/-- The call that takes a number comes last. -/
theorem numbered_take {s : Procs.State (Fin n) (Shared n) At} {order : List (Fin n)} (h : Numbered seq s order)
    {x : Fin n × Answer} {argv : Bool} (hp : s.point x.1 = .number argv) :
    Numbered seq (Procs.step (next hostbin) s x).2 (order ++ [x.1]) := by
  have hnot : x.1 ∉ order := h.before x.1 (by rw [hp]; trivial)
  have hnext : toInt (s.shared.seq + 1) = toInt (seq + order.length + 1) := by
    rw [← toInt_add, h.counter, toInt_add]
  have hseq : (Procs.step (next hostbin) s x).2.shared.seq = toInt (s.shared.seq + 1) := by
    rw [step_shared, hp]
    rfl
  refine ⟨List.nodup_append.2 ⟨h.nodup, List.nodup_singleton _, ?_⟩, ?_,
    step_points (L := fun i (p : At) => p.Before → i ∉ order ++ [x.1]) ?_ fun i hi hbefore => ?_,
    step_points (L := fun i (p : At) => ∀ t, p.inUse = some t →
      ∃ k : Nat, (order ++ [x.1])[k]? = some i ∧ t = toInt (seq + k + 1)) ?_ fun i _ t ht => ?_⟩
  · rintro i hi j hj rfl
    exact hnot (List.mem_singleton.1 hj ▸ hi)
  · rw [hseq, toInt_toInt, hnext, List.length_append, List.length_singleton]
    push_cast
    rw [Int.add_assoc]
  · rw [hp]
    exact False.elim
  · rw [List.mem_append, List.mem_singleton, not_or]
    exact ⟨h.before i hbefore, hi⟩
  · rw [hp]
    rintro t ht
    cases ht
    exact ⟨order.length, by simp, hnext⟩
  · obtain ⟨k, hk, rfl⟩ := h.number i t ht
    exact ⟨k, by rw [List.getElem?_append_left (List.getElem?_eq_some_iff.1 hk).1, hk], rfl⟩

theorem numbered_other {s : Procs.State (Fin n) (Shared n) At} {order : List (Fin n)} (h : Numbered seq s order)
    {x : Fin n × Answer} (hp : ∀ argv, s.point x.1 ≠ .number argv) :
    Numbered seq (Procs.step (next hostbin) s x).2 order := by
  obtain ⟨hbefore, hnumber⟩ := next_number hostbin x.1 s.shared x.2 hp
  refine ⟨h.nodup, ?_, step_points (L := fun i (p : At) => p.Before → i ∉ order) (fun hi => h.before _ (hbefore hi)) ?_,
    step_points (L := fun i (p : At) => ∀ t, p.inUse = some t → ∃ k : Nat, order[k]? = some i ∧ t = toInt (seq + k + 1))
      (fun t ht => h.number _ t (hnumber t ht)) ?_⟩
  · rw [step_shared, next_seq hp]
    exact h.counter
  · exact fun i _ => h.before i
  · exact fun i _ => h.number i

theorem run_numbered (hostbin mounted : Bool) (seq : Int) (logs : List Text) (steps : List (Fin n × Answer)) :
    ∃ order, Numbered seq (run hostbin mounted seq logs steps) order := by
  refine exec_inv' (I := fun s => ∃ order, Numbered seq s order) ?_ steps ⟨[], ?_⟩
  · rintro s x ⟨order, h⟩
    by_cases hp : ∃ argv, s.point x.1 = .number argv
    · obtain ⟨argv, hp⟩ := hp
      exact ⟨_, numbered_take h hp⟩
    · exact ⟨order, numbered_other h fun argv he => hp ⟨argv, he⟩⟩
  · exact ⟨List.nodup_nil, by simp [start], by simp, fun i t ht => by cases ht⟩

/-- Fewer than 2^32 calls have different numbers. -/
theorem Numbered.distinct {s : Procs.State (Fin n) (Shared n) At} {order : List (Fin n)} (h : Numbered seq s order)
    (hn : n < 2 ^ 32) {i j : Fin n} {t : Int} (hi : (s.point i).inUse = some t) (hj : (s.point j).inUse = some t) :
    i = j := by
  obtain ⟨k, hk, hkt⟩ := h.number i t hi
  obtain ⟨l, hl, hlt⟩ := h.number j t hj
  have hlen : order.length ≤ n := by simpa using h.nodup.length_le_card
  have hklen := (List.getElem?_eq_some_iff.1 hk).1
  have hllen := (List.getElem?_eq_some_iff.1 hl).1
  have hmod : (seq + k + 1) % (2 ^ 32 : Nat) = (seq + l + 1) % (2 ^ 32 : Nat) := by
    rw [← Int.bmod_emod (x := seq + k + 1), ← Int.bmod_emod (x := seq + l + 1)]
    exact congrArg (· % ((2 ^ 32 : Nat) : Int)) (hkt.symm.trans hlt)
  have hkl : k = l := by omega
  subst hkl
  exact Option.some.inj (hk.symm.trans hl)

/-! ## Every state of every run -/

/-- The flag says whether hostfs is mounted, or a call has just mounted it and has not set the flag yet. -/
theorem run_settled_or (hostbin mounted : Bool) (seq : Int) (logs : List Text) (steps : List (Fin n × Answer)) :
    Settled (run hostbin mounted seq logs steps).shared ∨
    ∃ i, (run hostbin mounted seq logs steps).point i = .setMounted 0 ∧
      (run hostbin mounted seq logs steps).shared.mounted = false ∧
      (run hostbin mounted seq logs steps).shared.mounts = 1 := by
  obtain ⟨hfree, hlocal⟩ := run_local hostbin mounted seq logs steps
  generalize run hostbin mounted seq logs steps = s at hfree hlocal ⊢
  cases hlock : s.shared.lock with
  | none => exact Or.inl (hfree hlock)
  | some i =>
    have hholds := (hlocal i).owner.1 hlock
    have hinside := (hlocal i).inside
    cases hp : s.point i with
    | test =>
      rw [hp] at hinside
      exact Or.inl hinside
    | mkdir | mount =>
      rw [hp] at hinside
      exact Or.inl (settled_of_zero hinside.1 hinside.2)
    | setMounted err =>
      rw [hp] at hinside
      by_cases herr : err = 0
      · subst herr
        exact Or.inr ⟨i, hp, hinside.1, by simpa using hinside.2⟩
      · exact Or.inl (settled_of_zero hinside.1 (by simpa [herr] using hinside.2))
    | unlock err =>
      rw [hp] at hinside
      exact Or.inl hinside.1
    | _ =>
      rw [hp] at hholds
      exact hholds.elim

/-- What holds of concurrent calls, with the logs that were there before them. -/
structure Safe (logs : List Text) (s : Procs.State (Fin n) (Shared n) At) : Prop where
  once : s.shared.mounts ≤ 1
  /-- The flag is right, but for the time between a successful mount and the assignment. -/
  flag : (∀ i, s.point i ≠ .setMounted 0) → (s.shared.mounted = true ↔ s.shared.mounts = 1)
  /-- The call that has just mounted hostfs still holds the lock. -/
  window : ∀ i, s.point i = .setMounted 0 → s.shared.lock = some i
  executed : ∀ i t, s.point i = .running t → s.shared.mounts = 1
  names : n < 2 ^ 32 → ∀ i j t u, i ≠ j → (s.point i).inUse = some t → (s.point j).inUse = some u →
    logPath t ≠ logPath u
  removed : (∀ i, ∃ ret, s.point i = .returned ret) → ∀ f ∈ s.shared.logs, f ∈ logs

/-- However many calls there are, in whatever order they move and whatever fails. -/
theorem run_safe (hostbin mounted : Bool) (seq : Int) (logs : List Text) (steps : List (Fin n × Answer)) :
    Safe logs (run hostbin mounted seq logs steps) := by
  have hlocal := (run_local hostbin mounted seq logs steps).2
  have hsettled := run_settled_or hostbin mounted seq logs steps
  have howned := run_owned hostbin mounted seq logs steps
  obtain ⟨order, hnumbered⟩ := run_numbered hostbin mounted seq logs steps
  generalize run hostbin mounted seq logs steps = s at hlocal hsettled howned hnumbered ⊢
  constructor
  · rcases hsettled with h | ⟨i, -, -, h⟩
    · rw [h]
      split <;> omega
    · omega
  · intro hno
    rcases hsettled with h | ⟨i, hi, -, -⟩
    · rw [h]
      split <;> simp [*]
    · exact absurd hi (hno i)
  · intro i hi
    exact (hlocal i).owner.2 (by rw [hi]; trivial)
  · intro i t hi
    have hmounted := (hlocal i).beyond (by rw [hi]; trivial)
    rcases hsettled with h | ⟨-, -, hfalse, -⟩
    · rw [h, if_pos hmounted]
    · rw [hmounted] at hfalse
      cases hfalse
  · intro hn i j t u hij hi hj he
    obtain rfl := logPath_inj he
    exact hij (hnumbered.distinct hn hi hj)
  · intro hall f hf
    refine (howned f hf).resolve_right ?_
    rintro ⟨i, t, howes, -⟩
    obtain ⟨ret, hret⟩ := hall i
    rw [hret] at howes
    cases howes

/-- One call that has mounted hostfs and has not come to the assignment. -/
theorem run_mounted_before_flag :
    (run true false 0 [] (List.replicate 5 ((0 : Fin 1), ⟨0, true⟩))).shared.mounts = 1 ∧
      (run true false 0 [] (List.replicate 5 ((0 : Fin 1), ⟨0, true⟩))).shared.mounted = false := by
  decide

end NfsPlayground.Fixture.RunProg
