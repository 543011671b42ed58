import NfsPlayground.Coverage.Parse

/-!
# What the records say

A tracefile is a list of records with other lines between them. What it says about a file is a set of line numbers,
those of the `DA:` lines of all records of the file, and the subset of those that one of these lines has a positive
count for. `parse_lcov()` returns the sizes of the two sets for every file with a `DA:` line, and nothing for any other
(`parse_counts`), so that neither the order nor the number of the records matters (`coverage_union`).
-/

namespace NfsPlayground.Coverage

open Lines PyText

/-! ## Tracefiles -/

/-- A line of a record: `DA:<line number>,<count>[,<checksum>]`, or one that says nothing about lines. -/
inductive Body
  | da (no : Nat) (count : Int) (checksum : Option Text)
  | other (line : Text)

def Body.line : Body → Text
  | .da no count checksum => daTag ++ natText no ++ ',' :: intText count ++ checksum.elim [] (',' :: ·)
  | .other line => line

/-- A line of another kind opens no record, closes none and says nothing about lines. -/
def Body.Proper : Body → Prop
  | .da _ _ _ => True
  | .other line => ¬ sfTag <+: line ∧ ¬ daTag <+: line ∧ line ≠ endOfRecord

inductive Item
  | outside (line : Text)
  | record (sf : Text) (body : List Body)

def Item.lines : Item → List Text
  | .outside line => [line]
  | .record sf body => (sfTag ++ sf) :: (body.map Body.line ++ [endOfRecord])

def Item.Proper : Item → Prop
  | .outside line => ¬ sfTag <+: line
  | .record _ body => ∀ b ∈ body, b.Proper

/-- The text is read as these items. -/
structure Reads (text : Text) (items : List Item) : Prop where
  lines_eq : lines (universal text) = items.flatMap Item.lines
  proper : ∀ i ∈ items, i.Proper

/-! ## What they say -/

/-- What one `DA:` line says: of which file, of which line, and the count. -/
structure Fact where
  file : Text
  no : Nat
  count : Int
  deriving DecidableEq

def Body.fact (file : Text) : Body → Option Fact
  | .da no count _ => some ⟨file, no, count⟩
  | .other _ => none

def Item.facts : Item → List Fact
  | .outside _ => []
  | .record sf body => (fileOf sf).elim [] fun file => body.filterMap (Body.fact file)

def facts (items : List Item) : List Fact := items.flatMap Item.facts

/-- The line numbers of a file. -/
def seenLines (fs : List Fact) (file : Text) : Finset Nat :=
  ((fs.filter (·.file = file)).map Fact.no).toFinset

/-- The line numbers of a file that some record hit. -/
def hitLines (fs : List Fact) (file : Text) : Finset Nat :=
  ((fs.filter fun x => x.file = file ∧ 0 < x.count).map Fact.no).toFinset

theorem mem_seenLines {fs : List Fact} {file : Text} {n : Nat} :
    n ∈ seenLines fs file ↔ ∃ x ∈ fs, x.file = file ∧ x.no = n := by
  simp [seenLines, and_assoc]

theorem mem_hitLines {fs : List Fact} {file : Text} {n : Nat} :
    n ∈ hitLines fs file ↔ ∃ x ∈ fs, x.file = file ∧ 0 < x.count ∧ x.no = n := by
  simp [hitLines, and_assoc]

/-- The pair of a file: how many lines were hit, and how many there are. -/
def coverage (seen hit : Text → Finset Nat) (file : Text) : Option (Nat × Nat) :=
  if seen file = ∅ then none else some ((hit file).card, (seen file).card)

/-! ## The pass over the lines -/

/-- The dictionary says what the lines read so far say. -/
structure Tells (d : AList fun _ : Text => FileLines) (fs : List Fact) : Prop where
  files : ∀ file, file ∈ d ↔ (seenLines fs file).Nonempty
  seen : ∀ file l, d.lookup file = some l → ∀ no, no ∈ l ↔ ∃ n ∈ seenLines fs file, natText n = no
  hit : ∀ file l, d.lookup file = some l → ∀ no, l.lookup no = some true ↔ ∃ n ∈ hitLines fs file, natText n = no

theorem tells_nil : Tells ∅ [] where
  files file := by simp [seenLines]
  seen file l h := by simp at h
  hit file l h := by simp at h

theorem seenLines_append (fs : List Fact) (x : Fact) (file : Text) :
    seenLines (fs ++ [x]) file = if x.file = file then insert x.no (seenLines fs file) else seenLines fs file := by
  ext n
  rw [mem_seenLines]
  split
  · rename_i hx
    rw [Finset.mem_insert, mem_seenLines]
    simp only [List.mem_append, List.mem_singleton, or_and_right, exists_or, exists_eq_left]
    rw [or_comm, @eq_comm _ n x.no]
    simp [hx]
  · rename_i hx
    rw [mem_seenLines]
    simp [or_and_right, exists_or, hx]

theorem hitLines_append (fs : List Fact) (x : Fact) (file : Text) :
    hitLines (fs ++ [x]) file =
      if x.file = file ∧ 0 < x.count then insert x.no (hitLines fs file) else hitLines fs file := by
  ext n
  rw [mem_hitLines]
  split
  · rename_i hx
    rw [Finset.mem_insert, mem_hitLines]
    simp only [List.mem_append, List.mem_singleton, or_and_right, exists_or, exists_eq_left]
    rw [or_comm, @eq_comm _ n x.no]
    simp [hx]
  · rename_i hx
    rw [mem_hitLines]
    simp only [List.mem_append, List.mem_singleton, or_and_right, exists_or, exists_eq_left]
    rw [or_iff_left fun h => hx ⟨h.1, h.2.1⟩]

/-- The lines of a file that is not in the dictionary are those of an empty one. -/
theorem Tells.fileLines {d : AList fun _ : Text => FileLines} {fs : List Fact} (h : Tells d fs) (file : Text) :
    (∀ no, no ∈ (d.lookup file).getD ∅ ↔ ∃ n ∈ seenLines fs file, natText n = no) ∧
    ∀ no, ((d.lookup file).getD ∅).lookup no = some true ↔ ∃ n ∈ hitLines fs file, natText n = no := by
  cases hd : d.lookup file with
  | some l => exact ⟨h.seen file l hd, h.hit file l hd⟩
  | none =>
    have hno : seenLines fs file = ∅ := by
      rw [← Finset.not_nonempty_iff_eq_empty, ← h.files file, ← AList.lookup_isSome, hd]
      exact Bool.false_ne_true
    have hhit : hitLines fs file = ∅ := by
      refine Finset.eq_empty_of_forall_notMem fun n hn => ?_
      obtain ⟨x, hx, hf, -, hn⟩ := mem_hitLines.1 hn
      exact Finset.eq_empty_iff_forall_notMem.1 hno n (mem_seenLines.2 ⟨x, hx, hf, hn⟩)
    constructor <;> intro no
    · simp [hno]
    · simp [hhit]

/-- The entry one `DA:` line makes or updates. -/
def record (d : AList fun _ : Text => FileLines) (x : Fact) : AList fun _ : Text => FileLines :=
  let fileLines := (d.lookup x.file).getD ∅
  d.insert x.file (fileLines.insert (natText x.no) (fileLines.lookup (natText x.no) = some true ∨ 0 < x.count))

theorem Tells.record {d : AList fun _ : Text => FileLines} {fs : List Fact} (h : Tells d fs) (x : Fact) :
    Tells (record d x) (fs ++ [x]) := by
  obtain ⟨hseen, hhit⟩ := h.fileLines x.file
  have hnat : ∀ {m n : Nat}, natText m = natText n ↔ m = n := natText_injective.eq_iff
  constructor
  · intro file
    rw [Coverage.record, AList.mem_insert, h.files, seenLines_append]
    by_cases hf : file = x.file
    · simp [hf]
    · simp [hf, Ne.symm hf]
  · intro file l hl no
    rw [seenLines_append]
    by_cases hf : file = x.file
    · subst hf
      rw [Coverage.record, AList.lookup_insert, Option.some.injEq] at hl
      subst hl
      rw [AList.mem_insert, hseen, if_pos rfl]
      simp [eq_comm]
    · rw [Coverage.record, AList.lookup_insert_ne hf] at hl
      rw [if_neg (Ne.symm hf)]
      exact h.seen file l hl no
  · intro file l hl no
    rw [hitLines_append]
    by_cases hf : file = x.file
    · subst hf
      rw [Coverage.record, AList.lookup_insert, Option.some.injEq] at hl
      subst hl
      by_cases hno : no = natText x.no
      · subst hno
        rw [AList.lookup_insert, Option.some.injEq, decide_eq_true_eq, hhit]
        by_cases hc : 0 < x.count
        · simp [hc]
        · simp [hc]
      · rw [AList.lookup_insert_ne hno, hhit]
        by_cases hc : 0 < x.count
        · simp [hc, Ne.symm hno]
        · simp [hc]
    · rw [Coverage.record, AList.lookup_insert_ne hf] at hl
      rw [if_neg fun hx => hf hx.1.symm]
      exact h.hit file l hl no

/-! ## One line, one record, the whole file -/

theorem sfTag_drop (path : Text) : sfTag <+: sfTag ++ path ∧ (sfTag ++ path).drop 3 = path :=
  ⟨List.prefix_append _ _, rfl⟩

theorem comma_not_mem_natText (n : Nat) : ',' ∉ natText n := fun h => by
  have := isDigit_of_mem_natText h
  cases this

theorem comma_not_mem_intText : ∀ z : Int, ',' ∉ intText z
  | .ofNat n => comma_not_mem_natText n
  | .negSucc n => fun h => (List.mem_cons.1 h).elim (by decide) (comma_not_mem_natText (n + 1))

/-- A `DA:` line is recorded, whatever the dictionary says of its line before. -/
theorem parseDa_record (d : AList fun _ : Text => FileLines) (file : Text) (no : Nat) (count : Int)
    (checksum : Option Text) :
    parseDa ⟨d, some file⟩ file ((Body.da no count checksum).line.drop 3) =
      some ⟨record d ⟨file, no, count⟩, some file⟩ := by
  have hsplit : ∃ more, split ',' ((Body.da no count checksum).line.drop 3) = natText no :: intText count :: more := by
    cases checksum with
    | none =>
      refine ⟨[], ?_⟩
      show split ',' (natText no ++ ',' :: intText count ++ []) = _
      rw [List.append_nil, split_break _ (comma_not_mem_natText no), split_inline (comma_not_mem_intText count)]
    | some k =>
      refine ⟨split ',' k, ?_⟩
      show split ',' (natText no ++ ',' :: intText count ++ ',' :: k) = _
      rw [List.append_assoc, List.cons_append, split_break _ (comma_not_mem_natText no),
        split_break _ (comma_not_mem_intText count)]
  obtain ⟨more, hsplit⟩ := hsplit
  rw [parseDa, hsplit]
  dsimp only [record]
  split
  · rename_i hit
    simp [hit]
  · rename_i hit
    simp [hit, pyInt_intText]

theorem parseLine_da (d : AList fun _ : Text => FileLines) (cur : Option Text) (no : Nat) (count : Int)
    (checksum : Option Text) :
    parseLine ⟨d, cur⟩ (Body.da no count checksum).line =
      some ⟨cur.elim d fun file => record d ⟨file, no, count⟩, cur⟩ := by
  have hsf : ¬ sfTag <+: (Body.da no count checksum).line := fun h => by
    have := (List.cons_prefix_cons.1 h).1
    cases this
  have hda : daTag <+: (Body.da no count checksum).line := by
    rw [Body.line, List.append_assoc, List.append_assoc]
    exact List.prefix_append _ _
  rw [parseLine, if_neg hsf]
  cases cur with
  | some file =>
    show (if daTag <+: _ then _ else _) = _
    rw [if_pos hda]
    exact parseDa_record d file no count checksum
  | none =>
    have hend : (Body.da no count checksum).line ≠ endOfRecord := fun h => by
      have := congrArg List.head? h
      cases this
    show (if _ = endOfRecord then _ else _) = _
    rw [if_neg hend]
    rfl

theorem parseLine_other {line : Text} (h : (Body.other line).Proper) (s : ParseState) :
    parseLine s (Body.other line).line = some s := by
  obtain ⟨hsf, hda, hend⟩ := h
  obtain ⟨d, cur⟩ := s
  rw [parseLine, Body.line, if_neg hsf]
  cases cur with
  | some file => exact (if_neg hda).trans (if_neg hend)
  | none => exact if_neg hend

/-- The lines of a record, for the file the record is of. -/
theorem parse_body (cur : Option Text) (rest : List Text) : ∀ {body : List Body}, (∀ b ∈ body, b.Proper) →
    ∀ {d : AList fun _ : Text => FileLines} {fs : List Fact}, Tells d fs →
    ∃ d', Tells d' (fs ++ cur.elim [] fun file => body.filterMap (Body.fact file)) ∧
      parseLines (body.map Body.line ++ rest) ⟨d, cur⟩ = parseLines rest ⟨d', cur⟩
  | [], _, d, fs, hd => ⟨d, by cases cur <;> simpa using hd, rfl⟩
  | .da no count checksum :: body, hb, d, fs, hd => by
    have hb' : ∀ b ∈ body, b.Proper := fun b hmem => hb b (List.mem_cons_of_mem _ hmem)
    cases cur with
    | none =>
      obtain ⟨d', htells, hrun⟩ := parse_body none rest hb' hd
      refine ⟨d', htells, ?_⟩
      rw [List.map_cons, List.cons_append, parseLines, parseLine_da]
      exact hrun
    | some file =>
      obtain ⟨d', htells, hrun⟩ := parse_body (some file) rest hb' (hd.record ⟨file, no, count⟩)
      refine ⟨d', by simpa [Body.fact] using htells, ?_⟩
      rw [List.map_cons, List.cons_append, parseLines, parseLine_da]
      exact hrun
  | .other line :: body, hb, d, fs, hd => by
    have hb' : ∀ b ∈ body, b.Proper := fun b hmem => hb b (List.mem_cons_of_mem _ hmem)
    obtain ⟨d', htells, hrun⟩ := parse_body cur rest hb' hd
    refine ⟨d', ?_, ?_⟩
    · cases cur with
      | none => exact htells
      | some file => rwa [Option.elim, List.filterMap_cons_none rfl]
    · rw [List.map_cons, List.cons_append, parseLines, parseLine_other (hb _ List.mem_cons_self)]
      exact hrun

theorem parseLine_end (d : AList fun _ : Text => FileLines) (cur : Option Text) :
    parseLine ⟨d, cur⟩ endOfRecord = some ⟨d, none⟩ := by
  cases cur <;> rfl

theorem parse_item (rest : List Text) {i : Item} (hi : i.Proper) {d : AList fun _ : Text => FileLines} {fs : List Fact}
    (hd : Tells d fs) :
    ∃ d', Tells d' (fs ++ i.facts) ∧ parseLines (i.lines ++ rest) ⟨d, none⟩ = parseLines rest ⟨d', none⟩ := by
  cases i with
  | outside line =>
    refine ⟨d, by rwa [Item.facts, List.append_nil], ?_⟩
    have hline : parseLine ⟨d, none⟩ line = some ⟨d, none⟩ := by
      rw [parseLine, if_neg hi]
      exact ite_self _
    rw [Item.lines, List.singleton_append, parseLines, hline]
    rfl
  | record sf body =>
    obtain ⟨d', htells, hrun⟩ := parse_body (fileOf sf) (endOfRecord :: rest) hi hd
    refine ⟨d', htells, ?_⟩
    have hopen : parseLine ⟨d, none⟩ (sfTag ++ sf) = some ⟨d, fileOf sf⟩ := if_pos (sfTag_drop sf).1
    rw [Item.lines, List.cons_append, List.append_assoc, List.singleton_append, parseLines, hopen, Option.bind_some,
      hrun, parseLines, parseLine_end]
    rfl

theorem parse_items : ∀ {items : List Item}, (∀ i ∈ items, i.Proper) →
    ∀ {d : AList fun _ : Text => FileLines} {fs : List Fact}, Tells d fs →
    ∃ d', Tells d' (fs ++ facts items) ∧ parseLines (items.flatMap Item.lines) ⟨d, none⟩ = some ⟨d', none⟩
  | [], _, d, fs, hd => ⟨d, by simpa [facts] using hd, rfl⟩
  | i :: items, hi, d, fs, hd => by
    obtain ⟨d₁, h₁, hrun₁⟩ := parse_item (items.flatMap Item.lines) (hi i List.mem_cons_self) hd
    obtain ⟨d₂, h₂, hrun₂⟩ := parse_items (fun j hj => hi j (List.mem_cons_of_mem _ hj)) h₁
    refine ⟨d₂, ?_, ?_⟩
    · rwa [List.append_assoc] at h₂
    · rw [List.flatMap_cons, hrun₁, hrun₂]

/-- The answer gives every file its pair, and no other file. -/
def Answers (answer : Option (List (Text × Nat × Nat))) (cov : Text → Option (Nat × Nat)) : Prop :=
  ∃ pairs, answer = some pairs ∧ ∀ file, pairs.lookup file = cov file

theorem Tells.counts {d : AList fun _ : Text => FileLines} {fs : List Fact} (h : Tells d fs) (file : Text) :
    (counts d).lookup file = coverage (seenLines fs) (hitLines fs) file := by
  have hinj : Function.Injective natText := natText_injective
  rw [Coverage.counts, Dict.lookup_map_entries (fun l : FileLines => (l.entries.countP (·.2), l.entries.length))]
  unfold coverage
  cases hd : d.lookup file with
  | none =>
    have hno : ¬ (seenLines fs file).Nonempty := fun hne => by
      have := AList.lookup_isSome.2 ((h.files file).2 hne)
      rw [hd] at this
      cases this
    rw [if_pos (Finset.not_nonempty_iff_eq_empty.1 hno)]
    rfl
  | some l =>
    have hmem : file ∈ d := AList.lookup_isSome.1 (by rw [hd]; rfl)
    rw [if_neg (Finset.nonempty_iff_ne_empty.1 ((h.files file).1 hmem))]
    have hseen : l.entries.length = ((seenLines fs file).image natText).card :=
      Dict.length_entries fun no => by rw [h.seen file l hd no, Finset.mem_image]
    have hhit : l.entries.countP (·.2) = ((hitLines fs file).image natText).card :=
      Dict.countP_entries fun no => by rw [h.hit file l hd no, Finset.mem_image]
    rw [Finset.card_image_of_injective _ hinj] at hseen hhit
    rw [Option.map_some, hseen, hhit]

/-- What `parse_lcov()` returns is what the records say. -/
theorem parse_counts {text : Text} {items : List Item} (h : Reads text items) :
    Answers (parseLcov text) (coverage (seenLines (facts items)) (hitLines (facts items))) := by
  obtain ⟨d, htells, hrun⟩ := parse_items h.proper tells_nil
  refine ⟨counts d, ?_, fun file => ?_⟩
  · rw [parseLcov, h.lines_eq, hrun]
    rfl
  · rw [htells.counts, List.nil_append]

/-! ## Records in another order, again, in parts, and from two files -/

/-- Only which facts there are matters. -/
theorem lines_congr {fs gs : List Fact} (h : ∀ x, x ∈ fs ↔ x ∈ gs) :
    seenLines fs = seenLines gs ∧ hitLines fs = hitLines gs := by
  constructor <;> funext file <;> ext n
  · simp only [mem_seenLines, h]
  · simp only [mem_hitLines, h]

theorem mem_facts_congr {items items' : List Item} (h : ∀ i, i ∈ items' ↔ i ∈ items) (x : Fact) :
    x ∈ facts items' ↔ x ∈ facts items := by
  simp only [facts, List.mem_flatMap, h]

theorem facts_append (items items' : List Item) : facts (items ++ items') = facts items ++ facts items' :=
  List.flatMap_append

theorem facts_record_append (sf : Text) (b c : List Body) :
    (Item.record sf (b ++ c)).facts = (Item.record sf b).facts ++ (Item.record sf c).facts := by
  simp only [Item.facts]
  cases fileOf sf with
  | none => rfl
  | some file => exact List.filterMap_append

theorem facts_split (sf : Text) : ∀ bodies : List (List Body),
    facts (bodies.map (Item.record sf)) = (Item.record sf bodies.flatten).facts
  | [] => by
    simp only [List.map_nil, List.flatten_nil, Item.facts]
    cases fileOf sf <;> rfl
  | b :: bodies => by
    rw [List.map_cons, List.flatten_cons, facts_record_append, ← facts_split sf bodies]
    rfl

theorem lines_append_facts (fs gs : List Fact) (file : Text) :
    seenLines (fs ++ gs) file = seenLines fs file ∪ seenLines gs file ∧
    hitLines (fs ++ gs) file = hitLines fs file ∪ hitLines gs file := by
  constructor <;> ext n
  · simp only [Finset.mem_union, mem_seenLines, List.mem_append, or_and_right, exists_or]
  · simp only [Finset.mem_union, mem_hitLines, List.mem_append, or_and_right, exists_or]

/-- One file after the other, where the first ends its last line, is read as the items of both. -/
theorem Reads.append {t u : Text} {items items' : List Item} (ht : Reads t items) (hu : Reads u items')
    (hclosed : Closed t) : Reads (t ++ u) (items ++ items') where
  lines_eq := by
    rw [universal_append u hclosed, lines_append _ (closed_universal hclosed), ht.lines_eq, hu.lines_eq,
      List.flatMap_append]
  proper i hi := (List.mem_append.1 hi).elim (ht.proper i) (hu.proper i)

/-- `parse_lcov()` returns the union over the records: for every file with a `DA:` line how many of its lines some
record hit and how many it has, and nothing else. So the answer stays when records change their places, come again or
are split, and two files one after the other give the union of their lines. -/
theorem coverage_union {text : Text} {items : List Item} (h : Reads text items) :
    Answers (parseLcov text) (coverage (seenLines (facts items)) (hitLines (facts items))) ∧
    (∀ items' text', items'.Perm items → Reads text' items' →
      Answers (parseLcov text') (coverage (seenLines (facts items)) (hitLines (facts items)))) ∧
    (∀ i items' text', i ∈ items → items'.Perm (i :: items) → Reads text' items' →
      Answers (parseLcov text') (coverage (seenLines (facts items)) (hitLines (facts items)))) ∧
    (∀ before sf (bodies : List (List Body)) after text', items = before ++ Item.record sf bodies.flatten :: after →
      Reads text' (before ++ bodies.map (Item.record sf) ++ after) →
      Answers (parseLcov text') (coverage (seenLines (facts items)) (hitLines (facts items)))) ∧
    (∀ items' text', Closed text → Reads text' items' →
      Answers (parseLcov (text ++ text')) (coverage
        (fun file => seenLines (facts items) file ∪ seenLines (facts items') file)
        (fun file => hitLines (facts items) file ∪ hitLines (facts items') file))) := by
  have hsame : ∀ {items' : List Item} {text' : Text}, (∀ x, x ∈ facts items' ↔ x ∈ facts items) → Reads text' items' →
      Answers (parseLcov text') (coverage (seenLines (facts items)) (hitLines (facts items))) := by
    intro items' text' hfacts hreads
    obtain ⟨hseen, hhit⟩ := lines_congr hfacts
    rw [← hseen, ← hhit]
    exact parse_counts hreads
  refine ⟨parse_counts h, ?_, ?_, ?_, ?_⟩
  · intro items' text' hperm hreads
    exact hsame (mem_facts_congr fun _ => hperm.mem_iff) hreads
  · intro i items' text' hi hperm hreads
    refine hsame (mem_facts_congr fun j => ?_) hreads
    rw [hperm.mem_iff, List.mem_cons]
    exact or_iff_right_of_imp fun hj => hj ▸ hi
  · rintro before sf bodies after text' rfl hreads
    refine hsame (fun x => ?_) hreads
    rw [facts_append, facts_append, facts_split, facts_append, List.append_assoc]
    rfl
  · intro items' text' hclosed hreads
    have hunion := parse_counts (h.append hreads hclosed)
    rw [facts_append] at hunion
    have hseen : seenLines (facts items ++ facts items') =
        fun file => seenLines (facts items) file ∪ seenLines (facts items') file :=
      funext fun file => (lines_append_facts _ _ file).1
    have hhit : hitLines (facts items ++ facts items') =
        fun file => hitLines (facts items) file ∪ hitLines (facts items') file :=
      funext fun file => (lines_append_facts _ _ file).2
    rwa [hseen, hhit] at hunion

/-- Items written out line by line are read back. -/
theorem reads_unlines {items : List Item} (hproper : ∀ i ∈ items, i.Proper)
    (hlines : ∀ l ∈ items.flatMap Item.lines, '\n' ∉ l ∧ '\r' ∉ l) :
    Reads (unlines (items.flatMap Item.lines)) items where
  lines_eq := by
    have hno : '\r' ∉ unlines (items.flatMap Item.lines) := fun h => by
      obtain ⟨m, hm, hr⟩ := List.mem_flatten.1 h
      obtain ⟨l, hl, rfl⟩ := List.mem_map.1 hm
      exact (List.mem_append.1 hr).elim (hlines l hl).2 (by decide)
    rw [universal_of_noReturn hno, lines_unlines fun l hl => (hlines l hl).1]
  proper := hproper

/-- `/linux/fs/a` -/
def pathA : Text := linuxDir ++ fsDir ++ ['a']

/-- `/linux/fs/b` -/
def pathB : Text := linuxDir ++ fsDir ++ ['b']

def fileA : Text := fsDir ++ ['a']

def twoRecords : List Item := [.record pathA [.da 7 1 none], .record pathA [.da 7 0 none, .da 8 0 none]]

theorem coverage_union_twoRecords :
    Answers (parseLcov (unlines (twoRecords.flatMap Item.lines)))
      (coverage (seenLines (facts twoRecords)) (hitLines (facts twoRecords))) ∧
    coverage (seenLines (facts twoRecords)) (hitLines (facts twoRecords)) fileA = some (1, 2) :=
  ⟨(coverage_union (reads_unlines (by simp [twoRecords, Item.Proper, Body.Proper]) (by decide))).1, by decide⟩

/-- A record without a `DA:` line gives its file no pair; and where the first of two files does not end its last line,
the first record of the second is not opened. -/
theorem no_pair_without_da :
    (Reads (unlines (Item.record pathA []).lines) [.record pathA []] ∧ fileOf pathA = some fileA ∧
      parseLcov (unlines (Item.record pathA []).lines) = some [] ∧
      ¬ ∃ pairs, parseLcov (unlines (Item.record pathA []).lines) = some pairs ∧
        pairs.lookup fileA = some ((hitLines (facts [.record pathA []]) fileA).card,
          (seenLines (facts [.record pathA []]) fileA).card)) ∧
    parseLcov (['\n'].intercalate (Item.record pathA [.da 7 1 none]).lines ++
        unlines (Item.record pathB [.da 9 1 none]).lines) = some [(fileA, 2, 2)] := by
  refine ⟨⟨?_, by decide, by decide, ?_⟩, ?_⟩
  · have hreads : Reads (unlines ([Item.record pathA []].flatMap Item.lines)) [.record pathA []] :=
      reads_unlines (by simp [Item.Proper]) (by decide)
    exact hreads
  · have hnone : parseLcov (unlines (Item.record pathA []).lines) = some [] := by decide
    rintro ⟨pairs, hpairs, hlookup⟩
    rw [hnone, Option.some.injEq] at hpairs
    subst hpairs
    cases hlookup
  · decide

end NfsPlayground.Coverage
