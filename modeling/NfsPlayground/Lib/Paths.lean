import NfsPlayground.Lib.PyText

/-!
# Absolute paths

`abspath` as `os.path.abspath` computes it: the components between the slashes, without the empty ones and `.`, and
with `..` taking the one before it away. A path written from proper components comes back as it is (`abspath_joined`).
-/

namespace PyText

open Lines

/-- The components that `os.path.normpath` keeps, the last first. -/
def normComps (rooted : Bool) : List Text → List Text → List Text
  | acc, [] => acc
  | acc, c :: cs =>
    if c = [] ∨ c = ['.'] then normComps rooted acc cs
    else if c ≠ ['.', '.'] ∨ (rooted = false ∧ acc = []) ∨ acc.head? = some ['.', '.'] then
      normComps rooted (c :: acc) cs
    else normComps rooted acc.tail cs

/-- One slash at the beginning, or two where the path has exactly two. -/
def initialSlashes : Text → Text
  | '/' :: '/' :: '/' :: _ => ['/']
  | '/' :: '/' :: _ => ['/', '/']
  | '/' :: _ => ['/']
  | _ => []

def normpath (t : Text) : Text :=
  let slashes := initialSlashes t
  let path := slashes ++ ['/'].intercalate (normComps (slashes ≠ []) [] (split '/' t)).reverse
  if path = [] then ['.'] else path

/-- `os.path.abspath` of a path given in the directory `cwd`. -/
def abspath (cwd t : Text) : Text :=
  normpath (if t.head? = some '/' then t else if cwd = [] ∨ cwd.getLast? = some '/' then cwd ++ t else cwd ++ '/' :: t)

/-- A name in a directory. -/
def Component (c : Text) : Prop := c ≠ [] ∧ '/' ∉ c ∧ c ≠ ['.'] ∧ c ≠ ['.', '.']

instance (c : Text) : Decidable (Component c) := inferInstanceAs (Decidable (_ ∧ _ ∧ _ ∧ _))

/-- Each component behind a slash. -/
def joined (cs : List Text) : Text := (cs.map ('/' :: ·)).flatten

theorem joined_cons (c : Text) (cs : List Text) : joined (c :: cs) = '/' :: (c ++ joined cs) := rfl

theorem joined_append (cs ds : List Text) : joined (cs ++ ds) = joined cs ++ joined ds := by
  rw [joined, List.map_append, List.flatten_append]
  rfl

theorem split_append {sep : Char} : ∀ {a t h : Text} {r : List Text}, sep ∉ a → split sep t = h :: r →
    split sep (a ++ t) = (a ++ h) :: r
  | [], _, _, _, _, ht => ht
  | c :: a, t, h, r, ha, ht => by
    simp only [List.mem_cons, not_or] at ha
    rw [List.cons_append, split, if_neg (Ne.symm ha.1), split_append ha.2 ht]
    rfl

theorem split_joined : ∀ {cs : List Text}, (∀ c ∈ cs, '/' ∉ c) → split '/' (joined cs) = [] :: cs
  | [], _ => rfl
  | c :: cs, h => by
    have ih := split_joined fun d hd => h d (List.mem_cons_of_mem _ hd)
    rw [joined_cons, split, if_pos rfl, split_append (h c List.mem_cons_self) ih, List.append_nil]

theorem normComps_proper : ∀ {cs acc : List Text}, (∀ c ∈ cs, Component c) →
    normComps true acc cs = cs.reverse ++ acc
  | [], _, _ => rfl
  | c :: cs, acc, h => by
    obtain ⟨hne, -, hdot, hdots⟩ := h c List.mem_cons_self
    rw [normComps, if_neg (by simp [hne, hdot]), if_pos (Or.inl hdots),
      normComps_proper fun d hd => h d (List.mem_cons_of_mem _ hd), List.reverse_cons, List.append_assoc]
    rfl

theorem intercalate_joined {c : Text} : ∀ cs : List Text, '/' :: ['/'].intercalate (c :: cs) = joined (c :: cs)
  | [] => by simp [joined]
  | d :: cs => by
    rw [List.intercalate_cons_of_ne_nil (List.cons_ne_nil d cs), List.append_assoc, List.singleton_append,
      intercalate_joined cs]
    rfl

theorem initialSlashes_joined {c : Text} (hc : Component c) (cs : List Text) :
    initialSlashes (joined (c :: cs)) = ['/'] := by
  obtain ⟨hne, hslash, -, -⟩ := hc
  cases c with
  | nil => exact absurd rfl hne
  | cons d c =>
    have hd : d ≠ '/' := fun h => hslash (h ▸ List.mem_cons_self)
    rw [joined_cons, List.cons_append]
    simp [initialSlashes, hd]

/-- A path written from proper components is its own absolute path. -/
theorem abspath_joined {cwd c : Text} {cs : List Text} (h : ∀ d ∈ c :: cs, Component d) :
    abspath cwd (joined (c :: cs)) = joined (c :: cs) := by
  have hcomps : normComps true [] (split '/' (joined (c :: cs))) = (c :: cs).reverse := by
    rw [split_joined fun d hd => (h d hd).2.1, normComps, if_pos (Or.inl rfl), normComps_proper h, List.append_nil]
  have hhead : (joined (c :: cs)).head? = some '/' := rfl
  rw [abspath, if_pos hhead, normpath]
  rw [initialSlashes_joined (h c List.mem_cons_self) cs, decide_eq_true (List.cons_ne_nil '/' []), hcomps,
    List.reverse_reverse, List.singleton_append, intercalate_joined,
    if_neg (by rw [joined_cons]; exact List.cons_ne_nil _ _)]

end PyText
