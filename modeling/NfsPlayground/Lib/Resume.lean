import Mathlib.Data.List.Basic

/-!
# Scripts that can be interrupted

A `Script` edits a state in atomic steps and may die on the way: it gives the states after each edit and whether it ran
to its end. `states a s` are the states an interruption can leave, the first and the last included.

`Resumable a done` is what makes a script safe to run again: from every state an interruption can leave, a new run ends
where the uninterrupted run does; a run that ends leaves `done`; and on a `done` state the script does nothing.
Guarded edits are resumable (`guarded_resumable`), and resumable scripts compose when what comes later keeps what is
done (`Resumable.seq`, `Resumable.loop`).
-/

namespace Resume

variable {σ α : Type*}

abbrev Script (σ : Type*) := σ → List σ × Bool

/-- The last state of a run from `s`. -/
def last (s : σ) (tr : List σ) : σ := tr.getLastD s

def skip : Script σ := fun _ => ([], true)

def die : Script σ := fun _ => ([], false)

def edit (f : σ → σ) : Script σ := fun s => ([f s], true)

def branch (p : σ → Bool) (a b : Script σ) : Script σ := fun s => if p s then a s else b s

/-- A variable, set from the state and used from then on. -/
def reading (g : σ → α) (k : α → Script σ) : Script σ := fun s => k (g s) s

def seq (a b : Script σ) : Script σ := fun s =>
  if (a s).2 then ((a s).1 ++ (b (last s (a s).1)).1, (b (last s (a s).1)).2) else ((a s).1, false)

def loop (f : α → Script σ) : List α → Script σ
  | [] => skip
  | x :: xs => seq (f x) (loop f xs)

/-- `b` is run when `a` exits, whether or not it has run to its end. -/
def trapped (a b : Script σ) : Script σ := fun s =>
  ((a s).1 ++ (b (last s (a s).1)).1, (a s).2 && (b (last s (a s).1)).2)

/-- A run that a signal cuts off after `k` edits, if one does. -/
def cut (k : Option Nat) (a : Script σ) : Script σ := fun s =>
  match k with
  | some k => ((a s).1.take k, false)
  | none => a s

/-- A command that does nothing to the state, or that the script dies of. -/
def orDie (ok : Bool) : Script σ := if ok then skip else die

/-- A command that does `f`, or that the script dies of. -/
def cmd (ok : Bool) (f : σ → σ) : Script σ := if ok then edit f else die

/-- An edit that is made unless `p` holds. -/
def guarded (p : σ → Bool) (f : σ → σ) : Script σ := branch p skip (edit f)

/-- The script runs to its end, and ends in `r`. -/
def Ends (a : Script σ) (s r : σ) : Prop := (a s).2 = true ∧ last s (a s).1 = r

/-- The states at which the script can be interrupted. -/
def states (a : Script σ) (s : σ) : List σ := s :: (a s).1

/-! ## Where scripts end, and the states on the way -/

theorem Ends.unique {a : Script σ} {s r r' : σ} (h : Ends a s r) (h' : Ends a s r') : r = r' :=
  h.2.symm.trans h'.2

@[simp] theorem ends_skip {s r : σ} : Ends skip s r ↔ s = r := by simp [Ends, skip, last]

@[simp] theorem ends_die {s r : σ} : ¬ Ends die s r := by simp [Ends, die]

@[simp] theorem ends_edit {f : σ → σ} {s r : σ} : Ends (edit f) s r ↔ f s = r := by simp [Ends, edit, last]

theorem ends_branch {p : σ → Bool} {a b : Script σ} {s r : σ} :
    Ends (branch p a b) s r ↔ if p s then Ends a s r else Ends b s r := by
  unfold Ends branch
  split <;> rfl

theorem ends_guarded {p : σ → Bool} {f : σ → σ} {s r : σ} :
    Ends (guarded p f) s r ↔ r = if p s then s else f s := by
  unfold guarded
  rw [ends_branch]
  split <;> simp [eq_comm]

theorem ends_reading {g : σ → α} {k : α → Script σ} {s r : σ} : Ends (reading g k) s r ↔ Ends (k (g s)) s r := Iff.rfl

theorem ends_seq {a b : Script σ} {s r : σ} : Ends (seq a b) s r ↔ ∃ m, Ends a s m ∧ Ends b m r := by
  unfold Ends seq
  by_cases h : (a s).2
  · have hlast : last s ((a s).1 ++ (b (last s (a s).1)).1) = last (last s (a s).1) (b (last s (a s).1)).1 := by
      simp [last, List.getLastD_eq_getLast?, List.getLast?_append]
    simp only [h, if_true, true_and, hlast]
    exact ⟨fun hb => ⟨_, rfl, hb⟩, fun ⟨m, hm, hb⟩ => hm ▸ hb⟩
  · simp [h]

/-- A stage that changes nothing. -/
theorem ends_seq_settled {a b : Script σ} {s r : σ} (h : Ends a s s) : Ends (seq a b) s r ↔ Ends b s r := by
  rw [ends_seq]
  exact ⟨fun ⟨_, hm, hb⟩ => hm.unique h ▸ hb, fun hb => ⟨s, h, hb⟩⟩

theorem seq_assoc (a b c : Script σ) : seq (seq a b) c = seq a (seq b c) := by
  funext s
  unfold seq
  by_cases ha : (a s).2
  · by_cases hb : (b (last s (a s).1)).2
    · have hlast : last s ((a s).1 ++ (b (last s (a s).1)).1) = last (last s (a s).1) (b (last s (a s).1)).1 := by
        simp [last, List.getLastD_eq_getLast?, List.getLast?_append]
      simp [ha, hb, hlast]
    · simp [ha, hb]
  · simp [ha]

theorem loop_append (f : α → Script σ) (ys : List α) : ∀ xs : List α,
    loop f (xs ++ ys) = seq (loop f xs) (loop f ys)
  | [] => by
    funext s
    simp [loop, seq, skip, last]
  | x :: xs => by rw [List.cons_append, loop, loop_append f ys xs, ← seq_assoc, loop]

theorem Ends.ends_last {a : Script σ} {s r : σ} (h : Ends a s r) : Ends a s (last s (a s).1) := ⟨h.1, rfl⟩

theorem Ends.mem_states {a : Script σ} {s r : σ} (h : Ends a s r) : r ∈ states a s := by
  rw [← h.2, last, List.getLastD_eq_getLast?, states]
  cases hl : (a s).1.getLast? with
  | none => exact List.mem_cons_self
  | some x => exact List.mem_cons_of_mem _ (List.mem_of_getLast? hl)

@[simp] theorem mem_states_skip {s m : σ} : m ∈ states skip s ↔ m = s := by simp [states, skip]

@[simp] theorem mem_states_die {s m : σ} : m ∈ states die s ↔ m = s := by simp [states, die]

@[simp] theorem mem_states_edit {f : σ → σ} {s m : σ} : m ∈ states (edit f) s ↔ m = s ∨ m = f s := by
  simp [states, edit]

theorem mem_states_branch {p : σ → Bool} {a b : Script σ} {s m : σ} :
    m ∈ states (branch p a b) s ↔ if p s then m ∈ states a s else m ∈ states b s := by
  unfold states branch
  split <;> rfl

theorem mem_states_reading {g : σ → α} {k : α → Script σ} {s m : σ} :
    m ∈ states (reading g k) s ↔ m ∈ states (k (g s)) s := Iff.rfl

theorem mem_states_seq {a b : Script σ} {s m : σ} :
    m ∈ states (seq a b) s ↔ m ∈ states a s ∨ ∃ s', Ends a s s' ∧ m ∈ states b s' := by
  by_cases h : (a s).2
  · have hlast : Ends a s (last s (a s).1) := ⟨h, rfl⟩
    have hiff : (∃ s', Ends a s s' ∧ m ∈ states b s') ↔ m ∈ states b (last s (a s).1) :=
      ⟨fun ⟨s', he, hm⟩ => he.unique hlast ▸ hm, fun hm => ⟨_, hlast, hm⟩⟩
    have hmem := hlast.mem_states
    rw [hiff]
    simp only [states, seq, h, if_true, List.mem_cons, List.mem_append] at hmem ⊢
    grind
  · rw [or_iff_left fun ⟨s', he, _⟩ => h he.1]
    simp [states, seq, h]

theorem last_mem_states (a : Script σ) (s : σ) : last s (a s).1 ∈ states a s := by
  rw [last, List.getLastD_eq_getLast?, states]
  cases hl : (a s).1.getLast? with
  | none => exact List.mem_cons_self
  | some x => exact List.mem_cons_of_mem _ (List.mem_of_getLast? hl)

theorem mem_states_trapped {a b : Script σ} {s m : σ} :
    m ∈ states (trapped a b) s ↔ m ∈ states a s ∨ m ∈ states b (last s (a s).1) := by
  have hmem := last_mem_states a s
  simp only [states, trapped, List.mem_cons, List.mem_append] at hmem ⊢
  grind

theorem mem_states_cut {k : Option Nat} {a : Script σ} {s m : σ} (h : m ∈ states (cut k a) s) : m ∈ states a s := by
  cases k with
  | none => exact h
  | some k => exact (List.mem_cons.1 h).elim (fun hm => hm ▸ List.mem_cons_self) fun hm =>
      List.mem_cons_of_mem _ (List.mem_of_mem_take hm)

/-- From a state with `I`, every state on the way has `I`. -/
def Keeps (I : σ → Prop) (a : Script σ) : Prop := ∀ s, I s → ∀ m ∈ states a s, I m

section Keeps

variable {I : σ → Prop} {a b : Script σ}

theorem Keeps.ends (h : Keeps I a) {s r : σ} (hs : I s) (he : Ends a s r) : I r := h s hs r he.mem_states

theorem keeps_skip : Keeps I skip := fun s hs m hm => by rwa [mem_states_skip.1 hm]

theorem keeps_die : Keeps I die := fun s hs m hm => by rwa [mem_states_die.1 hm]

theorem keeps_edit {f : σ → σ} (h : ∀ s, I s → I (f s)) : Keeps I (edit f) := fun s hs m hm => by
  rcases mem_states_edit.1 hm with rfl | rfl
  · exact hs
  · exact h s hs

theorem keeps_branch {p : σ → Bool} (ha : Keeps I a) (hb : Keeps I b) : Keeps I (branch p a b) := fun s hs m hm => by
  rw [mem_states_branch] at hm
  split at hm
  · exact ha s hs m hm
  · exact hb s hs m hm

theorem keeps_reading {g : σ → α} {k : α → Script σ} (h : ∀ x, Keeps I (k x)) : Keeps I (reading g k) :=
  fun s hs => h (g s) s hs

theorem keeps_orDie (ok : Bool) : Keeps I (orDie ok) := by
  unfold orDie
  split
  · exact keeps_skip
  · exact keeps_die

theorem keeps_cmd (ok : Bool) {f : σ → σ} (h : ∀ s, I s → I (f s)) : Keeps I (cmd ok f) := by
  unfold cmd
  split
  · exact keeps_edit h
  · exact keeps_die

theorem keeps_seq (ha : Keeps I a) (hb : Keeps I b) : Keeps I (seq a b) := fun s hs m hm => by
  rcases mem_states_seq.1 hm with hm | ⟨s', he, hm⟩
  · exact ha s hs m hm
  · exact hb s' (ha.ends hs he) m hm

theorem keeps_cut (ha : Keeps I a) (k : Option Nat) : Keeps I (cut k a) := fun s hs m hm =>
  ha s hs m (mem_states_cut hm)

theorem keeps_trapped (ha : Keeps I a) (hb : Keeps I b) : Keeps I (trapped a b) := fun s hs m hm => by
  rcases mem_states_trapped.1 hm with hm | hm
  · exact ha s hs m hm
  · exact hb _ (ha s hs _ (last_mem_states a s)) m hm

theorem keeps_loop {f : α → Script σ} : ∀ {xs : List α}, (∀ x ∈ xs, Keeps I (f x)) → Keeps I (loop f xs)
  | [], _ => keeps_skip
  | x :: _, h => keeps_seq (h x List.mem_cons_self) (keeps_loop fun y hy => h y (List.mem_cons_of_mem _ hy))

theorem keeps_guarded {p : σ → Bool} {f : σ → σ} (h : ∀ s, I s → I (f s)) : Keeps I (guarded p f) :=
  keeps_branch keeps_skip (keeps_edit h)

end Keeps

/-! ## What a script leads to -/

/-- A run from a state with `A` that runs to its end, ends in a state with `B`. -/
def Leads (A : σ → Prop) (a : Script σ) (B : σ → Prop) : Prop := ∀ s r, A s → Ends a s r → B r

section Leads

variable {A B C : σ → Prop} {a b : Script σ}

theorem Keeps.leads (h : Keeps A a) : Leads A a A := fun _ _ hs he => h.ends hs he

end Leads

/-- Every state on the way of a run from a state with `A` has `I`. -/
def Through (A : σ → Prop) (a : Script σ) (I : σ → Prop) : Prop := ∀ s, A s → ∀ m ∈ states a s, I m

section Through

variable {A B I : σ → Prop} {a b : Script σ}

theorem Keeps.through (h : Keeps I a) (hA : ∀ s, A s → I s) : Through A a I := fun s hs => h s (hA s hs)

end Through

/-- The script always runs to its end. -/
def Completes (a : Script σ) : Prop := ∀ s, (a s).2 = true

section Completes

variable {a b : Script σ}

theorem Completes.ends (h : Completes a) (s : σ) : Ends a s (last s (a s).1) := ⟨h s, rfl⟩

end Completes

/-- A loop runs to its end if each pass does, where something holds that all passes keep. -/
theorem loop_ends {I : σ → Prop} {f : α → Script σ} : ∀ {xs : List α}, (∀ x ∈ xs, Keeps I (f x)) →
    (∀ x ∈ xs, ∀ s, I s → ∃ r, Ends (f x) s r) → ∀ s, I s → ∃ r, Ends (loop f xs) s r
  | [], _, _, s, _ => ⟨s, ends_skip.2 rfl⟩
  | x :: xs, hk, h, s, hs => by
    rw [List.forall_mem_cons] at hk h
    obtain ⟨m, hm⟩ := h.1 s hs
    obtain ⟨r, hr⟩ := loop_ends hk.2 h.2 m (hk.1.ends hs hm)
    exact ⟨r, ends_seq.2 ⟨m, hm, hr⟩⟩

/-! ## Resumable scripts -/

/-- A new run from any state of the interrupted run ends where the uninterrupted one does. -/
def Resumes (a : Script σ) (s : σ) : Prop := ∀ r, Ends a s r → ∀ m ∈ states a s, Ends a m r

structure Resumable (a : Script σ) (done : σ → Prop) : Prop where
  resumes : ∀ s, Resumes a s
  reaches : ∀ {s r}, Ends a s r → done r
  settled : ∀ {s}, done s → Ends a s s

theorem Resumable.of_iff {a : Script σ} {A B : σ → Prop} (h : Resumable a A) (hiff : ∀ s, B s ↔ A s) :
    Resumable a B where
  resumes := h.resumes
  reaches he := (hiff _).2 (h.reaches he)
  settled hb := h.settled ((hiff _).1 hb)

theorem skip_resumable : Resumable (skip : Script σ) fun _ => True where
  resumes s r he m hm := by
    rw [mem_states_skip] at hm
    rwa [hm]
  reaches _ := trivial
  settled _ := ends_skip.2 rfl

theorem die_resumable : Resumable (die : Script σ) fun _ => False where
  resumes _ _ he := absurd he ends_die
  reaches he := absurd he ends_die
  settled h := h.elim

/-- A script that is passed over once `p` holds: `p` must hold at its end and nowhere before it where the rest is still
owed. -/
theorem unless_resumable {p : σ → Bool} {a : Script σ} (h : ∀ s r, p s = false → Ends a s r →
    p r = true ∧ ∀ m ∈ states a s, m = r ∨ (p m = false ∧ Ends a m r)) :
    Resumable (branch p skip a) fun s => p s = true where
  resumes s r he m hm := by
    rw [ends_branch] at he
    rw [mem_states_branch] at hm
    split at he
    · rename_i hp
      rw [if_pos hp, mem_states_skip] at hm
      rw [hm, ends_branch, if_pos hp]
      exact he
    · rename_i hp
      rw [if_neg hp] at hm
      obtain ⟨hr, hstates⟩ := h s r (by simpa using hp) he
      rw [ends_branch]
      rcases hstates m hm with rfl | ⟨hpm, hem⟩
      · rw [if_pos hr, ends_skip]
      · rwa [if_neg (by simp [hpm])]
  reaches {s r} he := by
    rw [ends_branch] at he
    split at he
    · rename_i hp
      rwa [← ends_skip.1 he]
    · rename_i hp
      exact (h s r (by simpa using hp) he).1
  settled hp := by rw [ends_branch, if_pos hp, ends_skip]

/-- A guard that recognises the edit it guards. -/
theorem guarded_resumable {p : σ → Bool} {f : σ → σ} (h : ∀ s, p s = false → p (f s) = true) :
    Resumable (guarded p f) fun s => p s = true := by
  refine unless_resumable fun s r hp he => ?_
  obtain rfl := ends_edit.1 he
  refine ⟨h s hp, fun m hm => ?_⟩
  rcases mem_states_edit.1 hm with rfl | rfl
  · exact Or.inr ⟨hp, he⟩
  · exact Or.inl rfl

/-- A check before a script that does not touch what is checked. -/
theorem Resumable.check {p : σ → Bool} {a : Script σ} {done : σ → Prop} (ha : Resumable a done)
    (hk : Keeps (fun s => p s = false) a) : Resumable (branch p die a) fun s => p s = false ∧ done s where
  resumes s r he m hm := by
    rw [ends_branch] at he ⊢
    rw [mem_states_branch] at hm
    split at he
    · exact absurd he ends_die
    · rename_i hp
      rw [if_neg hp] at hm
      have hpm := hk s (by simpa using hp) m hm
      rw [if_neg (by simp [hpm])]
      exact ha.resumes s r he m hm
  reaches he := by
    rw [ends_branch] at he
    split at he
    · exact absurd he ends_die
    · rename_i hp
      exact ⟨hk.ends (by simpa using hp) he, ha.reaches he⟩
  settled h := by
    rw [ends_branch, if_neg (by simp [h.1])]
    exact ha.settled h.2

/-- A variable that the script does not change. -/
theorem reading_resumable {g : σ → α} {k : α → Script σ} {done : α → σ → Prop} (h : ∀ x, Resumable (k x) (done x))
    (hk : ∀ x y, Keeps (fun s => g s = y) (k x)) : Resumable (reading g k) fun s => done (g s) s where
  resumes s r he m hm := by
    show Ends (k (g m)) m r
    rw [hk (g s) (g s) s rfl m hm]
    exact (h (g s)).resumes s r he m hm
  reaches {s r} he := by
    show done (g r) r
    rw [hk (g s) (g s) s rfl r (Ends.mem_states (a := k (g s)) he)]
    exact (h (g s)).reaches he
  settled {s} hd := (h (g s)).settled hd

/-- Two scripts in sequence resume where the second finds the first settled all the way. -/
theorem Resumes.seq {a b : Script σ} {s : σ} (ha : Resumes a s)
    (hb : ∀ s', Ends a s s' → Resumes b s' ∧ ∀ m ∈ states b s', Ends a m m) : Resumes (seq a b) s := by
  intro r he m hm
  obtain ⟨s', he1, he2⟩ := ends_seq.1 he
  obtain ⟨hres, hset⟩ := hb s' he1
  rw [ends_seq]
  rcases mem_states_seq.1 hm with hm | ⟨s'', he', hm⟩
  · exact ⟨s', ha s' he1 m hm, he2⟩
  · rw [← he1.unique he'] at hm
    exact ⟨m, hset m hm, hres r he2 m hm⟩

theorem Resumable.seq {a b : Script σ} {A B : σ → Prop} (ha : Resumable a A) (hb : Resumable b B) (hk : Keeps A b) :
    Resumable (seq a b) fun s => A s ∧ B s where
  resumes s := (ha.resumes s).seq fun s' he =>
    ⟨hb.resumes s', fun m hm => ha.settled (hk s' (ha.reaches he) m hm)⟩
  reaches he := by
    obtain ⟨m, he1, he2⟩ := ends_seq.1 he
    exact ⟨hk.ends (ha.reaches he1) he2, hb.reaches he2⟩
  settled h := ends_seq.2 ⟨_, ha.settled h.1, hb.settled h.2⟩

/-- A loop is resumable if each pass keeps what the passes before it have done. -/
theorem Resumable.loop {f : α → Script σ} {done : α → σ → Prop} : ∀ {xs : List α},
    (∀ x ∈ xs, Resumable (f x) (done x)) → xs.Pairwise (fun x y => Keeps (done x) (f y)) →
    Resumable (loop f xs) fun s => ∀ x ∈ xs, done x s
  | [], _, _ =>
    { resumes := skip_resumable.resumes
      reaches := fun _ x hx => absurd hx List.not_mem_nil
      settled := fun _ => ends_skip.2 rfl }
  | x :: xs, h, hp => by
    rw [List.pairwise_cons] at hp
    have htail := Resumable.loop (fun y hy => h y (List.mem_cons_of_mem _ hy)) hp.2
    have hall := (h x List.mem_cons_self).seq htail (keeps_loop hp.1)
    exact
      { resumes := hall.resumes
        reaches := fun he => List.forall_mem_cons.2 (hall.reaches he)
        settled := fun hd => hall.settled (List.forall_mem_cons.1 hd) }

end Resume
