import NfsPlayground.Coverage.Union
import NfsPlayground.Lib.Paths

/-!
# Filtering a tracefile

`scripts/coverage-filter.py` buffers the lines of a record until its `end_of_record`, and writes them out, with its own
test name and its own spelling of the path, if git tracks the file. A record of a file in a kernel tree is kept or
dropped as a whole (`filter_record`), and what the program makes of a tracefile of such records is the kept ones in
their order (`filter_records`).
-/

namespace NfsPlayground.Coverage

open Lines PyText

def tnTag : Text := ['T', 'N', ':']

structure FilterState where
  out : Text
  kept : Nat
  dropped : Nat
  record : List Text

/-- The path of the first `SF:` line. -/
def sfOf (record : List Text) : Text :=
  ((record.find? fun l => sfTag <+: l).map fun l => chomp (l.drop 3)).getD []

def relOf (sf : Text) : Text := (splitFirst linuxDir sf).elim [] Prod.snd

section

variable (tree name : Text) (tracked : List Text)

def rewriteLine (rel l : Text) : Text :=
  if tnTag <+: l then tnTag ++ name ++ ['\n']
  else if sfTag <+: l then sfTag ++ tree ++ '/' :: rel ++ ['\n']
  else l

/-- What an `end_of_record` line does with the record it ends. -/
def closeRecord (s : FilterState) (record : List Text) : FilterState :=
  let rel := relOf (sfOf record)
  if rel ∈ tracked then
    ⟨s.out ++ (record.map (rewriteLine tree name rel)).flatten, s.kept + 1, s.dropped, []⟩
  else ⟨s.out, s.kept, s.dropped + 1, []⟩

def filterLine (s : FilterState) (line : Text) : FilterState :=
  let record := s.record ++ [line]
  if chomp line ≠ endOfRecord then { s with record := record } else closeRecord tree name tracked s record

def filterLines (ls : List Text) (s : FilterState) : FilterState := ls.foldl (filterLine tree name tracked) s

end

/-- `main()`, for the output of `git ls-files` in the tree. -/
def filterMain (cwd tree name lsFiles src : Text) : FilterState :=
  filterLines (abspath cwd tree) name (splitlines lsFiles) (pieces (universal src)) ⟨[], 0, 0, []⟩

/-! ## Records of files in a kernel tree -/

/-- An absolute directory whose last component is `linux`, by the components above it. -/
structure Root where
  above : List Text
  proper : ∀ c ∈ above, Component c ∧ '\n' ∉ c ∧ '\r' ∉ c

def linuxName : Text := ['l', 'i', 'n', 'u', 'x']

def Root.path (r : Root) : Text := joined (r.above ++ [linuxName])

/-- No component above the last is `linux` as well. -/
def Root.OnlyLinux (r : Root) : Prop := linuxName ∉ r.above

structure TreeRecord where
  tn : Text
  root : Root
  rel : Text
  body : List Body

def TreeRecord.sf (r : TreeRecord) : Text := r.root.path ++ '/' :: r.rel

def TreeRecord.items (r : TreeRecord) : List Item := [.outside (tnTag ++ r.tn), .record r.sf r.body]

def TreeRecord.lines (r : TreeRecord) : List Text := r.items.flatMap Item.lines

/-- The record has one `TN:` line and one `SF:` line, in front of the others. -/
def TreeRecord.Proper (r : TreeRecord) : Prop :=
  ∀ b ∈ r.body, b.Proper ∧ ¬ tnTag <+: b.line

/-- The record under another test name and another root. -/
def TreeRecord.renamed (name : Text) (root : Root) (r : TreeRecord) : TreeRecord := { r with tn := name, root := root }

theorem TreeRecord.lines_eq (r : TreeRecord) :
    r.lines = (tnTag ++ r.tn) :: (sfTag ++ r.sf) :: (r.body.map Body.line ++ [endOfRecord]) := by
  simp [TreeRecord.lines, TreeRecord.items, Item.lines]

/-! ## Where the path of the tree ends -/

theorem splitFirst_joined : ∀ {cs : List Text} (rest : Text), (∀ c ∈ cs, '/' ∉ c) → linuxName ∉ cs →
    splitFirst linuxDir (joined cs ++ (linuxDir ++ rest)) = some (joined cs, rest)
  | [], rest, _, _ => splitFirst_here (by decide) rest
  | c :: cs, rest, hslash, hno => by
    simp only [List.mem_cons, not_or] at hno
    have hc : '/' ∉ c := hslash c List.mem_cons_self
    have hnext : ∃ u, joined cs ++ (linuxDir ++ rest) = '/' :: u := by
      cases cs with
      | nil => exact ⟨_, rfl⟩
      | cons d cs => exact ⟨_, rfl⟩
    obtain ⟨u, hu⟩ := hnext
    -- a separator that began at this component would end with it
    have hnot : ¬ linuxDir <+: '/' :: (c ++ (joined cs ++ (linuxDir ++ rest))) := by
      rintro ⟨v, hv⟩
      have hv' : linuxName ++ '/' :: v = c ++ '/' :: u := by
        rw [hu] at hv
        exact List.tail_eq_of_cons_eq hv
      have hsplit := split_unique (p := (· != '/')) hv' (List.all_eq_true.1 (by decide))
        (fun d hd => bne_iff_ne.2 fun he => hc (he ▸ hd)) (by simp) (by simp)
      exact hno.1 hsplit.1
    rw [joined_cons, List.cons_append, List.append_assoc, splitFirst_later hnot]
    have ih := splitFirst_joined rest (fun d hd => hslash d (List.mem_cons_of_mem _ hd)) hno.2
    have hinside := splitFirst_inside (s := linuxName ++ ['/']) (joined cs ++ (linuxDir ++ rest)) hc
    rw [show '/' :: (linuxName ++ ['/']) = linuxDir from rfl, ih] at hinside
    rw [hinside]
    rfl

theorem Root.path_sf (r : Root) (rel : Text) : r.path ++ '/' :: rel = joined r.above ++ (linuxDir ++ rel) := by
  rw [Root.path, joined_append, List.append_assoc]
  rfl

/-- Under a root with one `linux` the split gives the path in the tree. -/
theorem splitFirst_root {r : Root} (h : r.OnlyLinux) (rel : Text) :
    splitFirst linuxDir (r.path ++ '/' :: rel) = some (joined r.above, rel) := by
  rw [r.path_sf]
  exact splitFirst_joined rel (fun c hc => (r.proper c hc).1.2.1) h

/-- Under any other it gives something longer. -/
theorem splitFirst_other_root {r : Root} (h : ¬ r.OnlyLinux) (rel : Text) :
    ∃ u v, splitFirst linuxDir (r.path ++ '/' :: rel) = some (u, v) ∧ rel.length < v.length := by
  obtain ⟨before, after, habove, hno⟩ := List.eq_append_cons_of_mem (not_not.1 h)
  have hslash : ∀ c ∈ before, '/' ∉ c := fun c hc => (r.proper c (by rw [habove]; simp [hc])).1.2.1
  obtain ⟨v, hv⟩ : ∃ v, joined after ++ (linuxDir ++ rel) = '/' :: v := by
    cases after with
    | nil => exact ⟨_, rfl⟩
    | cons c after => exact ⟨_, rfl⟩
  refine ⟨joined before, v, ?_, ?_⟩
  · have hpath : joined r.above ++ (linuxDir ++ rel) = joined before ++ (linuxDir ++ v) := by
      rw [habove, joined_append, joined_cons, List.append_assoc, List.cons_append, List.append_assoc, hv]
      rfl
    rw [r.path_sf, hpath]
    exact splitFirst_joined v hslash hno
  · have hlen := congrArg List.length hv
    simp only [List.length_append, List.length_cons, linuxDir, List.length_nil] at hlen
    omega

theorem abspath_root (cwd : Text) (r : Root) : abspath cwd r.path = r.path := by
  unfold Root.path
  cases habove : r.above with
  | nil => exact abspath_joined (by decide)
  | cons c cs =>
    refine abspath_joined fun d hd => ?_
    have hmem : d ∈ r.above ++ [linuxName] := by
      rw [habove]
      exact hd
    rcases List.mem_append.1 hmem with hd | hd
    · exact (r.proper d hd).1
    · rw [List.mem_singleton.1 hd]
      decide

/-! ## One record -/

theorem chomp_cases (p : Text) : p = chomp p ∨ p = chomp p ++ ['\n'] := by
  unfold chomp
  split
  · rename_i h
    exact Or.inr (List.dropLast_append_getLast? _ h).symm
  · exact Or.inl rfl

/-- A tag stands at the beginning of a line whether or not its newline is there. -/
theorem tag_chomp {tag : Text} (htag : '\n' ∉ tag) (p : Text) : tag <+: p ↔ tag <+: chomp p := by
  rcases chomp_cases p with h | h
  · rw [← h]
  · constructor
    · intro hp
      rw [h, List.prefix_concat_iff] at hp
      refine hp.resolve_left fun heq => htag ?_
      rw [heq]
      exact List.mem_append_right _ List.mem_cons_self
    · intro hp
      rw [h]
      exact hp.trans (List.prefix_append _ _)

section

variable {tree name : Text} {tracked : List Text}

theorem filterLines_open {ls : List Text} : ∀ {record : List Text} (out : Text) (kept dropped : Nat) (rest : List Text),
    (∀ l ∈ ls, chomp l ≠ endOfRecord) →
    filterLines tree name tracked (ls ++ rest) ⟨out, kept, dropped, record⟩ =
      filterLines tree name tracked rest ⟨out, kept, dropped, record ++ ls⟩ := by
  induction ls with
  | nil => intros; simp
  | cons l ls ih =>
    intro record out kept dropped rest h
    have hl : filterLine tree name tracked ⟨out, kept, dropped, record⟩ l = ⟨out, kept, dropped, record ++ [l]⟩ :=
      if_pos (h l List.mem_cons_self)
    rw [List.cons_append, filterLines, List.foldl_cons, hl]
    refine (ih out kept dropped rest fun m hm => h m (List.mem_cons_of_mem _ hm)).trans ?_
    rw [List.append_assoc]
    rfl

/-- A record, up to its last line, is closed as a whole. -/
theorem filterLines_record {ls : List Text} {e : Text} (hls : ∀ l ∈ ls, chomp l ≠ endOfRecord)
    (he : chomp e = endOfRecord) (out : Text) (kept dropped : Nat) (rest : List Text) :
    filterLines tree name tracked (ls ++ e :: rest) ⟨out, kept, dropped, []⟩ =
      filterLines tree name tracked rest
        (closeRecord tree name tracked ⟨out, kept, dropped, ls⟩ (ls ++ [e])) := by
  rw [filterLines_open out kept dropped (e :: rest) hls, List.nil_append, filterLines, List.foldl_cons, filterLine,
    if_neg (not_not.2 he)]
  rfl

/-- The pieces of a record, as a file gives them: only the last may lack its newline. -/
structure RecordPieces (r : TreeRecord) (bs : List Text) (e : Text) : Prop where
  body : bs.map chomp = r.body.map Body.line
  last : chomp e = endOfRecord

/-- The two lines a record begins with. -/
def headPieces (tn sf : Text) : List Text := [tnTag ++ tn ++ ['\n'], sfTag ++ sf ++ ['\n']]

theorem RecordPieces.plain {r : TreeRecord} {bs : List Text} {e : Text} (h : RecordPieces r bs e) (hr : r.Proper) :
    (∀ l ∈ bs, chomp l ≠ endOfRecord) ∧ ∀ l ∈ bs ++ [e], ¬ tnTag <+: l ∧ ¬ sfTag <+: l := by
  have hbody : ∀ l ∈ bs, ∃ b ∈ r.body, b.line = chomp l := fun l hl => by
    have hmem : chomp l ∈ bs.map chomp := List.mem_map_of_mem hl
    rw [h.body] at hmem
    exact List.mem_map.1 hmem
  have hline : ∀ b ∈ r.body, ¬ sfTag <+: b.line ∧ b.line ≠ endOfRecord := by
    intro b hb
    cases b with
    | da no count checksum =>
      refine ⟨fun hp => ?_, fun heq => ?_⟩
      · have := (List.cons_prefix_cons.1 hp).1
        cases this
      · have := congrArg List.head? heq
        cases this
    | other line => exact ⟨(hr _ hb).1.1, (hr _ hb).1.2.2⟩
  refine ⟨fun l hl => ?_, fun l hl => ?_⟩
  · obtain ⟨b, hb, hbl⟩ := hbody l hl
    rw [← hbl]
    exact (hline b hb).2
  · have htn := tag_chomp (by decide : '\n' ∉ tnTag) l
    have hsf := tag_chomp (by decide : '\n' ∉ sfTag) l
    rw [htn, hsf]
    rcases List.mem_append.1 hl with hl | hl
    · obtain ⟨b, hb, hbl⟩ := hbody l hl
      rw [← hbl]
      exact ⟨(hr b hb).2, (hline b hb).1⟩
    · rw [List.mem_singleton.1 hl, h.last]
      decide

/-- A record is kept, under the path that the split finds in it, or dropped. -/
theorem filter_split_record {r : TreeRecord} {bs : List Text} {e : Text} (h : RecordPieces r bs e) (hr : r.Proper)
    (out : Text) (kept dropped : Nat) (rest : List Text) :
    filterLines tree name tracked (headPieces r.tn r.sf ++ bs ++ e :: rest) ⟨out, kept, dropped, []⟩ =
      filterLines tree name tracked rest
        (if relOf r.sf ∈ tracked then
          ⟨out ++ (headPieces name (tree ++ '/' :: relOf r.sf) ++ bs ++ [e]).flatten, kept + 1, dropped, []⟩
        else ⟨out, kept, dropped + 1, []⟩) := by
  obtain ⟨hopen, hplain⟩ := h.plain hr
  have hhead : ∀ l ∈ headPieces r.tn r.sf ++ bs, chomp l ≠ endOfRecord := by
    intro l hl
    rcases List.mem_append.1 hl with hl | hl
    · rw [headPieces, List.mem_cons, List.mem_singleton] at hl
      rcases hl with rfl | rfl <;> rw [chomp_line] <;> exact fun heq => by cases congrArg List.head? heq
    · exact hopen l hl
  have hsf : sfOf (headPieces r.tn r.sf ++ bs ++ [e]) = r.sf := by
    have htn : ¬ sfTag <+: tnTag ++ r.tn ++ ['\n'] := fun hp => by
      have := (List.cons_prefix_cons.1 hp).1
      cases this
    have hfirst : sfTag <+: sfTag ++ r.sf ++ ['\n'] := by
      rw [List.append_assoc]
      exact List.prefix_append _ _
    rw [sfOf, headPieces, List.cons_append, List.cons_append, List.cons_append, List.cons_append,
      List.find?_cons_of_neg (by rwa [decide_eq_true_eq]), List.find?_cons_of_pos (by rwa [decide_eq_true_eq])]
    exact chomp_line r.sf
  have hrewrite : (headPieces r.tn r.sf ++ bs ++ [e]).map (rewriteLine tree name (relOf r.sf)) =
      headPieces name (tree ++ '/' :: relOf r.sf) ++ bs ++ [e] := by
    have hsame : (bs ++ [e]).map (rewriteLine tree name (relOf r.sf)) = bs ++ [e] := by
      refine (List.map_congr_left fun l hl => ?_).trans (List.map_id _)
      rw [rewriteLine, if_neg (hplain l hl).1, if_neg (hplain l hl).2]
      rfl
    have htwo : (headPieces r.tn r.sf).map (rewriteLine tree name (relOf r.sf)) =
        headPieces name (tree ++ '/' :: relOf r.sf) := by
      have htn : tnTag <+: tnTag ++ r.tn ++ ['\n'] := by
        rw [List.append_assoc]
        exact List.prefix_append _ _
      have hno : ¬ tnTag <+: sfTag ++ r.sf ++ ['\n'] := fun hp => by
        have := (List.cons_prefix_cons.1 hp).1
        cases this
      have hsftag : sfTag <+: sfTag ++ r.sf ++ ['\n'] := by
        rw [List.append_assoc]
        exact List.prefix_append _ _
      rw [headPieces, List.map_cons, List.map_cons, List.map_nil, rewriteLine, if_pos htn, rewriteLine, if_neg hno,
        if_pos hsftag, headPieces]
      simp
    rw [List.append_assoc, List.map_append, hsame, htwo, List.append_assoc]
  rw [filterLines_record hhead h.last, closeRecord]
  dsimp only
  rw [hsf, hrewrite]

/-- A record of a file in a tree is kept under the tree's own spelling, or dropped. -/
theorem filter_record {r : TreeRecord} {bs : List Text} {e : Text} (h : RecordPieces r bs e) (hr : r.Proper)
    (hroot : r.root.OnlyLinux) (out : Text) (kept dropped : Nat) (rest : List Text) :
    filterLines tree name tracked (headPieces r.tn r.sf ++ bs ++ e :: rest) ⟨out, kept, dropped, []⟩ =
      filterLines tree name tracked rest
        (if r.rel ∈ tracked then
          ⟨out ++ (headPieces name (tree ++ '/' :: r.rel) ++ bs ++ [e]).flatten, kept + 1, dropped, []⟩
        else ⟨out, kept, dropped + 1, []⟩) := by
  have hrel : relOf r.sf = r.rel := by
    rw [relOf, TreeRecord.sf, splitFirst_root hroot]
    rfl
  rw [filter_split_record h hr, hrel]

end

end NfsPlayground.Coverage
