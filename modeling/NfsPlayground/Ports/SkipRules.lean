import NfsPlayground.Lib.Joined
import NfsPlayground.Lib.Rx
import NfsPlayground.Ports.RequireLines
import NfsPlayground.Ports.Status
import Mathlib.Data.List.Find

/-!
# The skip rules

`scripts/kunit/xfstests-port-status.py` searches the `_require` lines of a case, joined into one text, for the regular
expressions of its table. A blank that joins two lines is space to `\s` like any other. All rules but one cannot match
across such a joint; the rule for the `trusted` and `security` attributes can, from a line that has `_require_attrs` to
a later one that has the name of a namespace (`oneLine_iff`).
-/

namespace NfsPlayground.Ports

open Lines PyText Joined
open Rx hiding none

/-- What the patterns are made of: characters, `\s` and `\S`. -/
inductive Cls
  | chr (c : Char)
  | space
  | notSpace
  deriving DecidableEq

def Cls.mem : Cls → Char → Bool
  | chr d, c => c == d
  | space, c => isPySpace c
  | notSpace, c => !isPySpace c

/-! ## The table -/

def lit (s : String) : Rx Cls := word (s.toList.map Cls.chr)

/-- Words with a bar between them. -/
def oneOf (ss : List String) : Rx Cls := any (ss.map lit)

/-- `\s+` -/
def spaces : Rx Cls := plus (cls .space)

/-- `(\S+\s+)*` -/
def words : Rx Cls := star (seq (plus (cls .notSpace)) spaces)

/-- `_require_xfs_io_command\s+\"?` and one of the commands -/
def xfsIoCommand (commands : List String) : Rx Cls :=
  seq (lit "_require_xfs_io_command") (seq spaces (seq (opt (cls (.chr '"'))) (oneOf commands)))

/-- `(trusted|security)` -/
def namespaces : Rx Cls := oneOf ["trusted", "security"]

/-- `_require_attrs\s+(\S+\s+)*(trusted|security)` -/
def attrsNamespace : Rx Cls := seq (lit "_require_attrs") (seq spaces (seq words namespaces))

/-- `_require_attrs\s+(\S+\s+)*(trusted|security)|_require_attr_v1|ATTR_MODES` -/
def attrsRule : Rx Cls := any [attrsNamespace, lit "_require_attr_v1", lit "ATTR_MODES"]

/-- `SKIP_RULES` -/
def skipRules : List (Rx Cls × String) :=
  [(oneOf ["_require_atime", "_require_relatime", "_require_noatime"],
      "atime mount options have no effect on NFS: upstream _require_atime notruns"),
    (oneOf ["_require_acls", "_require_acl_get_max", "_require_chacl"],
      "POSIX ACLs are NFSv3-only in the Linux client (nfs3proc.c wires .set_acl); the fixture mounts v4.2"),
    (oneOf ["_require_renameat2"], "nfs_rename() rejects every RENAME_* flag with -EINVAL (fs/nfs/dir.c)"),
    (attrsRule, "trusted/security xattr namespaces: the NFSv4.2 client carries only user.* (RFC 8276)"),
    (oneOf ["_require_dax", "_require_scratch_dax"], "DAX"),
    (oneOf ["_require_dm_target"], "device-mapper target: the fixture has no block device"),
    (oneOf ["_require_scratch_reflink", "_require_test_reflink", "_require_cp_reflink", "_require_scratch_dedupe",
        "_require_test_dedupe"],
      "reflink/dedupe: not an NFS operation"),
    (oneOf ["_require_scratch_shutdown", "_require_scratch_nocheck_shutdown", "godown"],
      "filesystem shutdown: not an NFS operation"),
    (oneOf ["_require_quota", "_require_prjquota", "_require_xfs_quota_foreign"], "quota: not an NFS operation"),
    (oneOf ["_require_scratch_encryption", "_require_encryption"], "fscrypt: not an NFS operation"),
    (oneOf ["_require_scratch_verity", "_require_verity"], "fsverity: not an NFS operation"),
    (oneOf ["_require_scratch_swapfile", "_require_swapfile"], "swapfile on NFS is not supported"),
    (oneOf ["_require_metadata_journaling"], "journalling: the fixture cannot crash and replay"),
    (oneOf ["_require_chattr", "_require_chprojid"], "FS_IOC_SETFLAGS ioctl: not an NFS operation"),
    (xfsIoCommand ["fiemap"], "fiemap: not an NFS operation"),
    (xfsIoCommand ["falloc -k", "fzero", "fcollapse", "finsert", "funshare", "zero"],
      "fallocate mode unsupported over NFSv4.2 (only ALLOCATE/DEALLOCATE exist)"),
    (xfsIoCommand ["chattr", "label", "scrub", "repair", "bulkstat", "fsmap", "inject", "resblks", "parent", "utimes",
        "syncfs", "lsattr"],
      "xfs_io command with no NFS/VFS equivalent"),
    (oneOf ["_require_aio", "_require_aiodio"],
      "libaio: the test's program is linked with libaio. xfs_run_prog() can run userspace programs inside the test " ++
        "kernel, so a static build could run it; not ported yet"),
    (oneOf ["_require_fio"], "fio: userspace workload generator"),
    (oneOf ["_require_freeze"], "filesystem freeze: not an NFS operation"),
    (any [seq (lit "_require_attrs") (seq spaces (lit "trusted")), lit "_require_attr_v1"],
      "trusted xattr namespace: not carried over NFS"),
    (oneOf ["_require_scratch_size_nocheck", "_require_scratch_size", "_scratch_mkfs_sized"],
      "needs a filesystem of a chosen size (mkfs): no NFS equivalent"),
    (oneOf ["_require_loop"], "loop device"),
    (oneOf ["_require_block_device", "_require_local_device", "_require_scsi_debug"], "needs a real block device"),
    (oneOf ["_require_exportfs", "_require_ext4_mkfs", "_require_xfs_mkfs", "_require_btrfs"],
      "filesystem-specific tooling"),
    (oneOf ["_require_ioctl", "_require_fssum", "_require_fscrypt", "_require_fsverity"],
      "ioctl with no NFS equivalent"),
    (oneOf ["_require_deletable_subvols", "_require_btrfs_command", "_require_scratch_btrfs"], "btrfs-specific"),
    (oneOf ["_require_ugid_map", "_require_userns"], "user namespaces"),
    (oneOf ["_require_idmapped_mounts"], "idmapped mounts"),
    (oneOf ["_require_shutdown"], "filesystem shutdown: not an NFS operation"),
    (oneOf ["_require_richacl"], "richacl"),
    (oneOf ["_require_casefold", "_require_scratch_casefold"], "casefolding: not an NFS operation"),
    (oneOf ["_require_atomic_write", "_require_scratch_write_atomic"], "atomic writes"),
    (oneOf ["_require_sparse_files_fibmap", "_require_fibmap"], "FIBMAP ioctl"),
    (oneOf ["_require_seek_data_hole_sparse"], "sparse SEEK semantics vary")]

/-- The tables of the script with these rules and lines, whatever the other tables hold. -/
def withSkipRules (t : Tables) : Tables :=
  { t with skipRules := skipRules.map fun r => ⟨search Cls.mem r.1, r.2.toList⟩, requires := requires }

/-! ## Words without loose ends -/

/-- A class that may hold a space. -/
def Cls.mayBeSpace : Cls → Bool
  | chr c => isPySpace c
  | space => true
  | notSpace => false

/-- A class that may hold the underscore a `_require` line begins with. -/
def Cls.mayBeBar : Cls → Bool
  | chr c => c == '_'
  | space => false
  | notSpace => true

/-- A class that may hold a character that is not space. -/
def Cls.mayBeBlack : Cls → Bool
  | chr c => !isPySpace c
  | space => false
  | notSpace => true

/-- Every word begins and ends with a character that is not space. -/
def tight (r : Rx Cls) : Bool := !nullable r && !firsts Cls.mayBeSpace r && !lasts Cls.mayBeSpace r

/-- No word reaches over the joint of two lines. -/
def solid (r : Rx Cls) : Bool := tight r && !pairs Cls.mayBeSpace Cls.mayBeBar r

/-- One rule may reach over a joint. -/
theorem solid_skipRules : ∀ r ∈ skipRules, solid r.1 = true ∨ r.1 = attrsRule := by decide +kernel

theorem tight_skipRules : ∀ r ∈ skipRules, tight r.1 = true := by
  intro r hr
  rcases solid_skipRules r hr with h | h
  · exact ((Bool.and_eq_true _ _).mp h).1
  · rw [h]
    decide

/-- The word begins and ends with a character that is not space. -/
structure Tight (w : Text) : Prop where
  ne_nil : w ≠ []
  head : ∀ c ∈ w.head?, isPySpace c = false
  last : ∀ c ∈ w.getLast?, isPySpace c = false

theorem mayBeSpace_of_mem : ∀ k c, Cls.mem k c = true → isPySpace c = true → k.mayBeSpace = true := by
  intro k c hk hc
  cases k with
  | chr d => rwa [← of_decide_eq_true hk]
  | space => rfl
  | notSpace => simp [Cls.mem, hc] at hk

theorem mayBeBar_of_mem : ∀ k c, Cls.mem k c = true → c = '_' → k.mayBeBar = true := by
  rintro k c hk rfl
  cases k with
  | chr d => rw [← of_decide_eq_true hk]; rfl
  | space => exact absurd hk (by decide)
  | notSpace => rfl

theorem mayBeBlack_of_mem : ∀ k c, Cls.mem k c = true → isPySpace c = false → k.mayBeBlack = true := by
  intro k c hk hc
  cases k with
  | chr d => rw [← of_decide_eq_true hk, Cls.mayBeBlack, hc]; rfl
  | space => exact absurd hk (by simp [Cls.mem, hc])
  | notSpace => rfl

theorem tight_of_matches {r : Rx Cls} {w : Text} (hr : tight r = true) (h : Matches Cls.mem r w) : Tight w := by
  simp only [tight, Bool.and_eq_true, Bool.not_eq_true'] at hr
  obtain ⟨⟨hnull, hfirst⟩, hlast⟩ := hr
  refine ⟨?_, fun c hc => ?_, fun c hc => ?_⟩
  · rintro rfl
    rw [nullable_iff.2 h] at hnull
    cases hnull
  · by_contra hspace
    have := firsts_of_matches mayBeSpace_of_mem h c hc (by simpa using hspace)
    simp [hfirst] at this
  · by_contra hspace
    have := lasts_of_matches mayBeSpace_of_mem h c hc (by simpa using hspace)
    simp [hlast] at this

theorem unbroken_of_matches {r : Rx Cls} {w : Text} (hr : solid r = true) (h : Matches Cls.mem r w) :
    Unbroken ' ' '_' w := by
  simp only [solid, Bool.and_eq_true, Bool.not_eq_true'] at hr
  have ht := tight_of_matches hr.1 h
  refine ⟨ht.ne_nil, fun hc => ?_, fun hc => ?_, ?_⟩
  · exact absurd (ht.head ' ' hc) (by decide)
  · exact absurd (ht.last ' ' hc) (by decide)
  · refine (chain_of_matches mayBeSpace_of_mem mayBeBar_of_mem h hr.2).imp fun a b hab ha => ?_
    exact hab (ha ▸ rfl)

/-! ## Stripped lines -/

theorem infix_dropWhile_iff {w : Text} (hne : w ≠ []) (hw : ∀ c ∈ w.head?, isPySpace c = false) (l : Text) :
    w <:+: l.dropWhile isPySpace ↔ w <:+: l := by
  refine ⟨fun h => h.trans (List.dropWhile_suffix _).isInfix, fun h => ?_⟩
  induction l with
  | nil => exact h
  | cons c l ih =>
    by_cases hc : isPySpace c = true
    · rw [List.dropWhile_cons_of_pos hc]
      rcases List.infix_cons_iff.1 h with h | h
      · obtain ⟨b, v, rfl⟩ := List.exists_cons_of_ne_nil hne
        rw [(List.cons_prefix_cons.1 h).1] at hw
        exact absurd (hw c rfl) (by simp [hc])
      · exact ih h
    · rwa [List.dropWhile_cons_of_neg hc]

theorem Tight.infix_strip_iff {w : Text} (hw : Tight w) (l : Text) : w <:+: strip l ↔ w <:+: l := by
  have hhead : ∀ c ∈ w.reverse.head?, isPySpace c = false := by
    rw [List.head?_reverse]
    exact hw.last
  have hdrop := infix_dropWhile_iff (w := w.reverse) (by simp [hw.ne_nil]) hhead (l.dropWhile isPySpace).reverse
  rw [strip, List.rdropWhile, ← List.reverse_infix, List.reverse_reverse, hdrop, List.reverse_infix]
  exact infix_dropWhile_iff hw.ne_nil hw.head l

/-- A tight rule matches in a line as it does in the stripped one. -/
theorem search_strip {r : Rx Cls} (hr : tight r = true) (l : Text) :
    search Cls.mem r (strip l) = true ↔ search Cls.mem r l = true := by
  rw [search_iff, search_iff]
  constructor
  · rintro ⟨w, hw, h⟩
    exact ⟨w, ((tight_of_matches hr h).infix_strip_iff l).1 hw, h⟩
  · rintro ⟨w, hw, h⟩
    exact ⟨w, ((tight_of_matches hr h).infix_strip_iff l).2 hw, h⟩

theorem exists_strip_iff {r : Rx Cls} (hr : tight r = true) (src : Text) :
    (∃ l ∈ (requireLines src).map strip, search Cls.mem r l = true) ↔
      ∃ l ∈ requireLines src, search Cls.mem r l = true := by
  constructor
  · rintro ⟨_, hmem, h⟩
    obtain ⟨l, hl, rfl⟩ := List.mem_map.1 hmem
    exact ⟨l, hl, (search_strip hr l).1 h⟩
  · rintro ⟨l, hl, h⟩
    exact ⟨strip l, List.mem_map_of_mem hl, (search_strip hr l).2 h⟩

/-! ## Joined lines -/

section Joint

variable {ls : List Text} (hls : ∀ l ∈ ls, l.head? = some '_')

theorem search_joined_of_line {r : Rx Cls} {l : Text} (hl : l ∈ ls) (h : search Cls.mem r l = true) :
    search Cls.mem r ([' '].intercalate ls) = true := by
  obtain ⟨w, hw, h⟩ := search_iff.1 h
  exact search_iff.2 ⟨w, hw.trans (infix_intercalate hl), h⟩

include hls

/-- A solid rule matches in the joined lines exactly when it matches in one of them. -/
theorem search_joined_iff {r : Rx Cls} (hr : solid r = true) :
    search Cls.mem r ([' '].intercalate ls) = true ↔ ∃ l ∈ ls, search Cls.mem r l = true := by
  refine ⟨fun h => ?_, fun ⟨l, hl, h⟩ => search_joined_of_line hl h⟩
  obtain ⟨w, hw, h⟩ := search_iff.1 h
  obtain ⟨l, hl, hwl⟩ := (infix_intercalate_iff (unbroken_of_matches hr h) hls).1 hw
  exact ⟨l, hl, search_iff.2 ⟨w, hwl, h⟩⟩

end Joint

/-! ## The rule that reaches over a joint -/

/-- `_require_attrs` ends a word of the line. -/
def opensAttrs (l : Text) : Bool := search Cls.mem (seq (lit "_require_attrs") (cls .space)) (l ++ [' '])

/-- A word of the line begins with one of the namespaces. -/
def namesNamespace (l : Text) : Bool := search Cls.mem (seq (cls .space) namespaces) l

/-- A line opens what a later one completes. -/
def crosses : List Text → Bool
  | [] => false
  | l :: ls => (opensAttrs l && ls.any namesNamespace) || crosses ls

/-- The rule for the attributes has its match across lines and none in a line. -/
def crossesOnly (src : Text) : Bool :=
  crosses ((requireLines src).map strip) && !(requireLines src).any (search Cls.mem attrsRule)

theorem matches_lit_iff {s : String} {w : Text} : Matches Cls.mem (lit s) w ↔ w = s.toList :=
  matches_word_iff fun b c => by simp [Cls.mem]

theorem mem_space_iff {w : Text} : Matches Cls.mem (cls .space) w ↔ ∃ c, isPySpace c = true ∧ w = [c] :=
  matches_cls_iff

theorem matches_namespaces_iff {w : Text} :
    Matches Cls.mem namespaces w ↔ w = "trusted".toList ∨ w = "security".toList := by
  rw [namespaces, oneOf, matches_any_iff]
  simp [matches_lit_iff]

theorem namespace_begins_no_line {n y t : Text} (hn : Matches Cls.mem namespaces n) (ht : t.head? = some '_') :
    [] ++ n ++ y ≠ t := by
  rintro rfl
  rcases matches_namespaces_iff.1 hn with rfl | rfl
  · cases ht
  · cases ht

theorem opensAttrs_iff {l : Text} : opensAttrs l = true ↔
    ∃ x y, l = x ++ "_require_attrs".toList ++ y ∧ ∀ c ∈ y.head?, isPySpace c = true := by
  rw [opensAttrs, search_iff]
  constructor
  · rintro ⟨w, ⟨x, z, hw⟩, h⟩
    obtain ⟨u, v, rfl, hu, hv⟩ := matches_seq_iff.1 h
    obtain ⟨c, hc, rfl⟩ := mem_space_iff.1 hv
    rw [matches_lit_iff.1 hu] at hw
    rcases List.eq_nil_or_concat z with rfl | ⟨z, d, rfl⟩
    · rw [List.append_nil, ← List.append_assoc] at hw
      exact ⟨x, [], by rw [List.append_nil, List.append_inj_left' hw.symm rfl], by simp⟩
    · refine ⟨x, c :: z, ?_, fun b hb => by cases hb; exact hc⟩
      have hl : l = x ++ ("_require_attrs".toList ++ [c]) ++ z := by
        rw [List.concat_eq_append, ← List.append_assoc] at hw
        exact (List.append_inj_left' hw rfl).symm
      rw [hl]
      simp
  · rintro ⟨x, y, rfl, hy⟩
    have hword : ∀ c, isPySpace c = true →
        Matches Cls.mem (seq (lit "_require_attrs") (cls .space)) ("_require_attrs".toList ++ [c]) :=
      fun c hc => .seq (matches_lit_iff.2 rfl) (mem_space_iff.2 ⟨c, hc, rfl⟩)
    cases y with
    | nil => exact ⟨_, ⟨x, [], by simp⟩, hword ' ' rfl⟩
    | cons c y => exact ⟨_, ⟨x, y ++ [' '], by simp⟩, hword c (hy c rfl)⟩

theorem namesNamespace_iff {l : Text} : namesNamespace l = true ↔
    ∃ x c n y, l = x ++ c :: n ++ y ∧ isPySpace c = true ∧ Matches Cls.mem namespaces n := by
  rw [namesNamespace, search_iff]
  constructor
  · rintro ⟨w, ⟨x, y, rfl⟩, h⟩
    obtain ⟨u, n, rfl, hu, hn⟩ := matches_seq_iff.1 h
    obtain ⟨c, hc, rfl⟩ := mem_space_iff.1 hu
    exact ⟨x, c, n, y, rfl, hc, hn⟩
  · rintro ⟨x, c, n, y, rfl, hc, hn⟩
    exact ⟨c :: n, ⟨x, y, rfl⟩, .seq (mem_space_iff.2 ⟨c, hc, rfl⟩) hn⟩

/-- The text begins and ends with space. -/
structure Spans (m : Text) : Prop where
  ne_nil : m ≠ []
  head : ∀ c ∈ m.head?, isPySpace c = true
  last : ∀ c ∈ m.getLast?, isPySpace c = true

/-- Between `_require_attrs` and the namespace a match may have any words. -/
theorem matches_between {m : Text} (hlast : ∀ c ∈ m.getLast?, isPySpace c = true) (hne : m ≠ []) :
    ((∀ c ∈ m.head?, isPySpace c = true) → Matches Cls.mem (seq spaces words) m) ∧
    ((∀ c ∈ m.head?, isPySpace c = false) →
      Matches Cls.mem (seq (plus (cls .notSpace)) (seq spaces words)) m) := by
  induction m with
  | nil => exact absurd rfl hne
  | cons c m ih =>
    have hspace : isPySpace c = true → Matches Cls.mem (cls .space) [c] := fun h => mem_space_iff.2 ⟨c, h, rfl⟩
    have hblack : isPySpace c = false → Matches Cls.mem (cls .notSpace) [c] := fun h => .cls (by simp [Cls.mem, h])
    cases m with
    | nil =>
      have hc := hlast c rfl
      refine ⟨fun _ => ?_, fun h => ?_⟩
      · have hone := Matches.seq (matches_plus_one (hspace hc)) (.nil (r := seq (plus (cls .notSpace)) spaces))
        rwa [List.append_nil] at hone
      · rw [h c rfl] at hc
        cases hc
    | cons d m =>
      obtain ⟨ihspace, ihblack⟩ := ih (by simpa using hlast) (List.cons_ne_nil d m)
      cases hd : isPySpace d with
      | true =>
        obtain ⟨a, b, hab, ha, hb⟩ := matches_seq_iff.1 (ihspace fun e he => by cases he; exact hd)
        rw [hab]
        refine ⟨fun h => ?_, fun h => ?_⟩
        · exact .seq (matches_plus_cons (hspace (h c rfl)) ha) hb
        · exact .seq (matches_plus_one (hblack (h c rfl))) (.seq ha hb)
      | false =>
        obtain ⟨a, b, hab, ha, hb⟩ := matches_seq_iff.1 (ihblack fun e he => by cases he; exact hd)
        rw [hab]
        refine ⟨fun h => ?_, fun h => ?_⟩
        · obtain ⟨u, v, rfl, hu, hv⟩ := matches_seq_iff.1 hb
          rw [← List.append_assoc]
          exact .seq (matches_plus_one (hspace (h c rfl))) (.cons (.seq ha hu) hv)
        · exact .seq (matches_plus_cons (hblack (h c rfl)) ha) hb

theorem matches_spans_iff {m : Text} : Matches Cls.mem (seq spaces words) m ↔ Spans m := by
  refine ⟨fun h => ⟨?_, fun c hc => ?_, fun c hc => ?_⟩, fun h => (matches_between h.last h.ne_nil).1 h.head⟩
  · rintro rfl
    exact absurd (nullable_iff.2 h) (by decide)
  · by_contra hblack
    have := firsts_of_matches mayBeBlack_of_mem h c hc (by simpa using hblack)
    exact absurd this (by decide)
  · by_contra hblack
    have := lasts_of_matches mayBeBlack_of_mem h c hc (by simpa using hblack)
    exact absurd this (by decide)

theorem matches_attrsNamespace_iff {w : Text} : Matches Cls.mem attrsNamespace w ↔
    ∃ m n, w = "_require_attrs".toList ++ m ++ n ∧ Spans m ∧ Matches Cls.mem namespaces n := by
  rw [attrsNamespace, matches_seq_iff]
  constructor
  · rintro ⟨u, v, rfl, hu, hv⟩
    obtain ⟨a, t, rfl, ha, ht⟩ := matches_seq_iff.1 hv
    obtain ⟨b, n, rfl, hb, hn⟩ := matches_seq_iff.1 ht
    refine ⟨a ++ b, n, ?_, matches_spans_iff.1 (.seq ha hb), hn⟩
    rw [matches_lit_iff.1 hu]
    simp
  · rintro ⟨m, n, rfl, hm, hn⟩
    obtain ⟨a, b, rfl, ha, hb⟩ := matches_seq_iff.1 (matches_spans_iff.2 hm)
    exact ⟨_, a ++ (b ++ n), by simp, matches_lit_iff.2 rfl, .seq ha (.seq hb hn)⟩

section Crossing

variable {ls : List Text} (hls : ∀ l ∈ ls, l.head? = some '_')

include hls

/-- A namespace after a space stands in a line, after that space. -/
theorem namesNamespace_of_joined {x y n : Text} {c : Char} (h : (x ++ [c]) ++ n ++ y = [' '].intercalate ls)
    (hc : isPySpace c = true) (hn : Matches Cls.mem namespaces n) : ∃ l ∈ ls, namesNamespace l = true := by
  have hunbroken : Unbroken ' ' '_' n := unbroken_of_matches (r := namespaces) (by decide) hn
  induction ls generalizing x with
  | nil => simp at h
  | cons l ls ih =>
    cases ls with
    | nil =>
      rw [List.intercalate_singleton] at h
      exact ⟨l, by simp, namesNamespace_iff.2 ⟨x, c, n, y, by simp [← h], hc, hn⟩⟩
    | cons k ls =>
      have hrest : ∀ m ∈ k :: ls, m.head? = some '_' := fun m hm => hls m (List.mem_cons_of_mem _ hm)
      have hhead := head_intercalate (s := ' ') (hrest k (by simp)) ls
      rw [intercalate_cons_cons] at h
      rcases hunbroken.cut hhead h with ⟨y', rfl, -⟩ | ⟨z, hz, hrestz⟩
      · exact ⟨_, List.mem_cons_self, namesNamespace_iff.2 ⟨x, c, n, y', by simp, hc, hn⟩⟩
      · rcases List.eq_nil_or_concat z with rfl | ⟨z, d, rfl⟩
        · exact absurd hrestz (namespace_begins_no_line hn hhead)
        · rw [List.concat_eq_append] at hz hrestz
          have hd : c = d := by
            rw [← List.cons_append, ← List.append_assoc] at hz
            exact (List.append_inj' hz rfl).2 |> List.singleton_inj.1
          obtain ⟨m, hm, h⟩ := ih hrest (x := z) (by rw [hd, hrestz])
          exact ⟨m, List.mem_cons_of_mem _ hm, h⟩

theorem crosses_of_joined {x y m n : Text} (h : x ++ "_require_attrs".toList ++ (m ++ n ++ y) = [' '].intercalate ls)
    (hm : Spans m) (hn : Matches Cls.mem namespaces n) :
    (∃ l ∈ ls, search Cls.mem attrsNamespace l = true) ∨ crosses ls = true := by
  have hattrs : Unbroken ' ' '_' "_require_attrs".toList :=
    unbroken_of_matches (r := lit "_require_attrs") (by decide) (matches_lit_iff.2 rfl)
  have hunbroken : Unbroken ' ' '_' n := unbroken_of_matches (r := namespaces) (by decide) hn
  have hline : ∀ x y : Text, search Cls.mem attrsNamespace (x ++ "_require_attrs".toList ++ (m ++ n ++ y)) = true :=
    fun x y => search_iff.2 ⟨"_require_attrs".toList ++ m ++ n, ⟨x, y, by simp⟩,
      matches_attrsNamespace_iff.2 ⟨m, n, rfl, hm, hn⟩⟩
  induction ls generalizing x with
  | nil => simp at h
  | cons l ls ih =>
    cases ls with
    | nil =>
      rw [List.intercalate_singleton] at h
      exact Or.inl ⟨l, by simp, h ▸ hline x y⟩
    | cons k ls =>
      have hrest : ∀ m ∈ k :: ls, m.head? = some '_' := fun m hm => hls m (List.mem_cons_of_mem _ hm)
      have hhead := head_intercalate (s := ' ') (hrest k (by simp)) ls
      rw [intercalate_cons_cons] at h
      rcases hattrs.cut hhead h with ⟨y', rfl, hy⟩ | ⟨z, -, hz⟩
      · rcases hunbroken.cut hhead hy with ⟨y'', rfl, -⟩ | ⟨z, hmz, hz⟩
        · exact Or.inl ⟨_, List.mem_cons_self, hline x y''⟩
        · -- the line opens, and a later one has the namespace
          right
          have hopens : opensAttrs (x ++ "_require_attrs".toList ++ y') = true := by
            refine opensAttrs_iff.2 ⟨x, y', rfl, fun c hc => hm.head c ?_⟩
            rw [hmz, List.head?_append, hc]
            rfl
          rcases List.eq_nil_or_concat z with rfl | ⟨z, d, rfl⟩
          · exact absurd hz (namespace_begins_no_line hn hhead)
          · rw [List.concat_eq_append] at hmz hz
            have hlast : m.getLast? = some d := by
              rw [hmz, ← List.cons_append, ← List.append_assoc, List.getLast?_concat]
            obtain ⟨l', hl', hnames⟩ := namesNamespace_of_joined hrest hz (hm.last d hlast) hn
            rw [crosses, hopens, List.any_eq_true.2 ⟨l', hl', hnames⟩]
            rfl
      · rcases ih hrest hz with ⟨l', hl', h⟩ | h
        · exact Or.inl ⟨l', List.mem_cons_of_mem _ hl', h⟩
        · exact Or.inr (by rw [crosses, h, Bool.or_true])

end Crossing

/-- A line that opens, and a later one with a namespace, make a match. -/
theorem search_joined_of_crosses {ls : List Text} (h : crosses ls = true) :
    search Cls.mem attrsNamespace ([' '].intercalate ls) = true := by
  induction ls with
  | nil => cases h
  | cons l ls ih =>
    rw [crosses, Bool.or_eq_true, Bool.and_eq_true, List.any_eq_true] at h
    rcases h with ⟨hopens, l', hl', hnames⟩ | h
    · obtain ⟨x, y, rfl, hy⟩ := opensAttrs_iff.1 hopens
      obtain ⟨x', c, n, y', rfl, hc, hn⟩ := namesNamespace_iff.1 hnames
      obtain ⟨k, ls, rfl⟩ := List.exists_cons_of_ne_nil (List.ne_nil_of_mem hl')
      obtain ⟨p, q, hpq⟩ := infix_intercalate (s := ' ') hl'
      let m := y ++ ' ' :: (p ++ x' ++ [c])
      have hm : Spans m := by
        refine ⟨by simp [m], fun d hd => ?_, fun d hd => ?_⟩
        · cases y with
          | nil =>
            cases hd
            rfl
          | cons e y => exact hy d hd
        · have hlast : m.getLast? = some c := by
            rw [← List.getLast?_concat (l := y ++ ' ' :: (p ++ x'))]
            simp [m]
          rw [hlast] at hd
          cases hd
          exact hc
      refine search_iff.2 ⟨"_require_attrs".toList ++ m ++ n, ⟨x, y' ++ q, ?_⟩,
        matches_attrsNamespace_iff.2 ⟨m, n, rfl, hm, hn⟩⟩
      rw [intercalate_cons_cons, ← hpq]
      simp [m]
    · obtain ⟨w, hw, hmatch⟩ := search_iff.1 (ih h)
      have hne : ls ≠ [] := by
        rintro rfl
        cases h
      have hsuffix := (List.suffix_cons ' ' ([' '].intercalate ls)).trans (suffix_intercalate (s := ' ') l hne)
      exact search_iff.2 ⟨w, hw.trans hsuffix.isInfix, hmatch⟩

/-- The rule for the attributes matches in the joined lines where it matches in a line, or across lines. -/
theorem search_attrsRule_iff {ls : List Text} (hls : ∀ l ∈ ls, l.head? = some '_') :
    search Cls.mem attrsRule ([' '].intercalate ls) = true ↔
      (∃ l ∈ ls, search Cls.mem attrsRule l = true) ∨ crosses ls = true := by
  have halt : ∀ t : Text, search Cls.mem attrsRule t = true ↔
      search Cls.mem attrsNamespace t = true ∨ search Cls.mem (oneOf ["_require_attr_v1", "ATTR_MODES"]) t = true := by
    intro t
    rw [search_iff, search_iff, search_iff]
    show (∃ u, u <:+: t ∧ Matches Cls.mem (alt attrsNamespace (oneOf ["_require_attr_v1", "ATTR_MODES"])) u) ↔ _
    simp only [matches_alt_iff, and_or_left, exists_or]
  have hrest := search_joined_iff hls (r := oneOf ["_require_attr_v1", "ATTR_MODES"]) (by decide)
  constructor
  · intro h
    rcases (halt _).1 h with h | h
    · obtain ⟨w, ⟨x, y, hw⟩, hmatch⟩ := search_iff.1 h
      obtain ⟨m, n, rfl, hm, hn⟩ := matches_attrsNamespace_iff.1 hmatch
      rcases crosses_of_joined hls (x := x) (y := y) (by rw [← hw]; simp) hm hn with ⟨l, hl, h⟩ | h
      · exact Or.inl ⟨l, hl, (halt l).2 (Or.inl h)⟩
      · exact Or.inr h
    · obtain ⟨l, hl, h⟩ := hrest.1 h
      exact Or.inl ⟨l, hl, (halt l).2 (Or.inr h)⟩
  · rintro (⟨l, hl, h⟩ | h)
    · exact search_joined_of_line hl h
    · exact (halt _).2 (Or.inl (search_joined_of_crosses h))

/-! ## What the script takes as a match -/

/-- The rules match in one `_require` line, and the reason of a case is that of the first that does. -/
structure OneLine (t : Tables) (src : Text) : Prop where
  rules : ∀ r ∈ skipRules, search Cls.mem r.1 (requires src) = true ↔
    ∃ l ∈ requireLines src, search Cls.mem r.1 l = true
  reason : ∀ num, t.manual.lookup num = none →
    ∀ r ∈ skipRules.find? fun r => (requireLines src).any (search Cls.mem r.1),
      reasonOf (withSkipRules t) num src = r.2.toList

theorem attrsRule_mem : ∃ r ∈ skipRules, r.1 = attrsRule := List.mem_map.1 (by decide)

theorem requires_eq (src : Text) : requires src = [' '].intercalate ((requireLines src).map strip) := by
  rw [requires, map_strip_finditer]

theorem search_requires_iff {r : Rx Cls × String} (hr : r ∈ skipRules) (src : Text) :
    search Cls.mem r.1 (requires src) = true ↔ (∃ l ∈ requireLines src, search Cls.mem r.1 l = true) ∨
      r.1 = attrsRule ∧ crosses ((requireLines src).map strip) = true := by
  have htight := tight_skipRules r hr
  rw [requires_eq, ← exists_strip_iff htight]
  rcases solid_skipRules r hr with hsolid | hattrs
  · rw [search_joined_iff (fun l => head_of_mem_requireLines) hsolid]
    refine ⟨Or.inl, fun h => h.resolve_right ?_⟩
    rintro ⟨hattrs, -⟩
    rw [hattrs] at hsolid
    exact absurd hsolid (by decide)
  · rw [hattrs, search_attrsRule_iff fun l => head_of_mem_requireLines]
    simp

theorem why_ne_nil : ∀ r ∈ skipRules, r.2.toList ≠ [] := by
  have hwhy : ∀ r ∈ skipRules, r.2 ≠ "" := by simp [skipRules]
  exact fun r hr h => hwhy r hr (String.toList_eq_nil_iff.1 h)

/-- Where the rules match in lines only, the script's reason is that of the first. -/
theorem reason_of_rules {t : Tables} {src num : Text} (hnum : t.manual.lookup num = none)
    (h : ∀ r ∈ skipRules, search Cls.mem r.1 (requires src) = true ↔
      ∃ l ∈ requireLines src, search Cls.mem r.1 l = true) :
    ∀ r ∈ skipRules.find? fun r => (requireLines src).any (search Cls.mem r.1),
      reasonOf (withSkipRules t) num src = r.2.toList := by
  intro r hr
  have hsame : skipRules.find? (fun r => search Cls.mem r.1 (requires src)) = some r := by
    rw [← hr]
    refine List.find?_congr fun r hr => ?_
    rw [Bool.eq_iff_iff, h r hr, List.any_eq_true]
  have hfirst : firstRule (withSkipRules t).skipRules (requires src) = r.2.toList := by
    rw [firstRule, withSkipRules, List.find?_map]
    show ((Option.map _ (skipRules.find? fun r => search Cls.mem r.1 (requires src))).map Rule.why).getD [] = _
    rw [hsame]
    rfl
  have hne : r.2.toList ≠ [] := why_ne_nil r (List.mem_of_find?_eq_some hr)
  show orElse ((t.manual.lookup num).getD []) (orElse (firstRule (withSkipRules t).skipRules (requires src)) _) = _
  rw [hnum, hfirst]
  exact (if_pos rfl).trans (if_neg hne)

/-- The rules match in one line exactly unless the rule for the attributes matches across lines only. -/
theorem oneLine_iff (t : Tables) (src : Text) : OneLine t src ↔ crossesOnly src = false := by
  obtain ⟨r, hr, hrule⟩ := attrsRule_mem
  constructor
  · intro h
    rw [crossesOnly, Bool.and_eq_false_iff, Bool.not_eq_false']
    refine or_iff_not_imp_left.2 fun hcross => ?_
    have hmatch := (search_requires_iff hr src).2 (Or.inr ⟨hrule, by simpa using hcross⟩)
    rw [← hrule]
    exact List.any_eq_true.2 ((h.rules r hr).1 hmatch)
  · intro h
    have hrules : ∀ r ∈ skipRules, search Cls.mem r.1 (requires src) = true ↔
        ∃ l ∈ requireLines src, search Cls.mem r.1 l = true := by
      intro r hr
      rw [search_requires_iff hr]
      refine ⟨fun hmatch => hmatch.elim id ?_, Or.inl⟩
      rintro ⟨hrule, hcross⟩
      rw [crossesOnly, hcross, Bool.true_and, Bool.not_eq_false'] at h
      rw [hrule]
      exact List.any_eq_true.1 h
    exact ⟨hrules, fun num hnum => reason_of_rules hnum hrules⟩

/-- A case that needs user attributes only, and names the fix of a bug. -/
def crossedSource : Text :=
  "_require_attrs\n_fixed_by_kernel_commit 0123456789ab \"nfs: keep security labels\"\n".toList

/-- The title of the fix completes what `_require_attrs` opens: the rule matches, in neither of the lines. -/
theorem oneLine_fails :
    search Cls.mem attrsRule (requires crossedSource) = true ∧
    (∀ l ∈ requireLines crossedSource, search Cls.mem attrsRule l = false) ∧
    ¬ OneLine noTables crossedSource := by
  have hcross : crosses ((requireLines crossedSource).map strip) = true := by decide +kernel
  have hnone : ∀ l ∈ requireLines crossedSource, search Cls.mem attrsRule l = false := by decide +kernel
  obtain ⟨r, hr, hrule⟩ := attrsRule_mem
  have hmatch := (search_requires_iff hr crossedSource).2 (Or.inr ⟨hrule, hcross⟩)
  rw [hrule] at hmatch
  refine ⟨hmatch, hnone, fun h => ?_⟩
  obtain ⟨l, hl, hline⟩ := (h.rules r hr).1 (hrule ▸ hmatch)
  rw [hrule, hnone l hl] at hline
  cases hline

end NfsPlayground.Ports
