import NfsPlayground.Wiring.Expose
import NfsPlayground.Wiring.Install

/-!
# The wiring script

The wiring part of `run-nfs-kunit.sh` as one script over the tree: the linker scripts under `COVERAGE=1`, the functions
to expose with the conditional `do_mknodat`, the tests to install, and the options. The lists are those of the script.
-/

namespace NfsPlayground.Wiring

open Lines Pattern Resume

/-! ## Reading the entries -/

/-- What comes before the first `c`, and what comes after it. -/
def cut (c : Char) (x : Text) : Text × Text := (x.takeWhile (· ≠ c), (x.dropWhile (· ≠ c)).drop 1)

/-- The directory and the name of a path. -/
def splitPath (x : Text) : Path :=
  (((x.reverse.dropWhile (· ≠ '/')).drop 1).reverse, (x.reverse.takeWhile (· ≠ '/')).reverse)

/-- `IFS=: read -r relpath rettype func` -/
def Unstatic.read (line : Text) : Option Unstatic :=
  let (relpath, rest) := cut ':' line
  let (rettype, func) := cut ':' rest
  let (dir, base) := splitPath relpath
  if h : rettype.all (fun c => isWordChar c || c == ' ' || c == '*') = true ∧ func.all isWordChar = true then
    if ".c".toList <:+ base then some ⟨dir, base.take (base.length - 2), rettype, func, h.1, h.2⟩ else none
  else none

/-- `IFS=: read -r stem subdir symbol depends description` -/
def Entry.read (line : Text) : Option Entry :=
  let (stem, rest) := cut ':' line
  let (subdir, rest) := cut ':' rest
  let (symbol, rest) := cut ':' rest
  let (depends, description) := cut ':' rest
  if h : stem.all (fun c => isWordChar c || c == '/' || c == '-') = true ∧
      (symbol ≠ [] ∧ symbol.all isWordChar = true) ∧ '\n' ∉ depends ∧ '\n' ∉ description then
    some ⟨stem, subdir, symbol, depends, description, h.1, h.2.1, h.2.2.1, h.2.2.2⟩
  else none

/-! ## The linker scripts -/

def ldsFiles : List Path :=
  [("arch/um/include/asm".toList, "common.lds.S".toList), ("arch/um/kernel".toList, "dyn.lds.S".toList)]

/-- `grep -qF '*(.fini_array.*)'` -/
def capturesFini (p : Path) (t : Tree) : Bool := grep [.lit "*(.fini_array.*)".toList] (t.text p)

/-- `s/\*(\.fini_array)/*(.fini_array.*) *(.fini_array)/` -/
def captureFini (l : Text) : Text :=
  replaceFirst [.lit "*(.fini_array)".toList] (fun _ => "*(.fini_array.*) *(.fini_array)".toList) none l

def fixLds (p : Path) : Script Tree :=
  branch (fun t => !t.isFile p) die
    (branch (capturesFini p) skip
      (seq (edit fun t => t.modify p (sed captureFini))
        (branch (capturesFini p) skip die)))

/-! ## The functions to expose -/

def UNSTATIC : List Unstatic := [
  "fs/nfs/inode.c:int:nfs_inode_attrs_cmp",
  "fs/nfs/inode.c:int:nfs_attribute_timeout",
  "fs/nfs/inode.c:bool:nfs_check_cache_flags_invalid",
  "fs/nfs/inode.c:void:nfs_ooo_merge",
  "fs/nfs/inode.c:void:nfs_zap_caches_locked",
  "fs/nfs/inode.c:u32:nfs_get_valid_attrmask",
  "fs/nfs/inode.c:bool:nfs_file_has_writers",
  "fs/nfs/inode.c:int:nfs_update_inode",
  "fs/nfs/inode.c:void:nfs_wcc_update_inode",
  "fs/nfs/inode.c:int:nfs_check_inode_attributes",
  "fs/nfs/inode.c:bool:nfs_getattr_readdirplus_enable",
  "fs/nfs/inode.c:int:__nfs_revalidate_inode",
  "fs/nfs/inode.c:void:nfs_inode_init_regular",
  "fs/nfs/inode.c:void:nfs_inode_init_dir",
  "fs/nfs/inode.c:struct nfs_lock_context *:__nfs_find_lock_context",
  "fs/nfs/inode.c:bool:nfs_file_has_buffered_writers",
  "fs/nfs/inode.c:void:nfs_fattr_fixup_delegated",
  "fs/nfs/inode.c:void:nfs_init_lock_context",
  "fs/nfs/inode.c:int:nfs_vmtruncate",
  "fs/nfs/inode.c:void:init_once",
  "fs/nfs/inode.c:int:nfs_invalidate_mapping",
  "fs/nfs/inode.c:void:nfs_set_timestamps_to_ts",
  "fs/nfs/inode.c:void:nfs_ooo_record",
  "fs/nfs/inode.c:int:nfs_inode_finish_partial_attr_update",
  "fs/nfs/pagelist.c:bool:nfs_page_is_contiguous",
  "fs/nfs/pagelist.c:bool:nfs_match_lock_context",
  "fs/nfs/pagelist.c:unsigned int:nfs_coalesce_size",
  "fs/nfs/pnfs.c:s64:pnfs_lseg_range_cmp",
  "fs/nfs/pnfs.c:bool:pnfs_lseg_range_is_after",
  "fs/nfs/pnfs.c:bool:pnfs_lseg_range_contained",
  "fs/nfs/pnfs.c:bool:pnfs_lseg_range_match",
  "fs/nfs/pnfs.c:bool:pnfs_should_free_range",
  "fs/nfs/pnfs.c:bool:pnfs_match_lseg_recall",
  "fs/nfs/pnfs.c:struct pnfs_layout_segment *:pnfs_find_lseg",
  "fs/nfs/pnfs.c:bool:pnfs_sanity_check_layout_range",
  "fs/nfs/pnfs.c:bool:pnfs_within_mdsthreshold",
  "fs/nfs/nfs4namespace.c:ssize_t:nfs4_pathname_len",
  "fs/nfs/nfs4namespace.c:char *:nfs4_pathname_string",
  "fs/nfs/nfs4namespace.c:char *:nfs_path_component",
  "fs/nfs/nfs4namespace.c:char *:nfs4_path",
  "fs/nfs/nfs4namespace.c:int:nfs4_validate_fspath",
  "fs/nfs/nfs4proc.c:int:nfs4_map_errors",
  "fs/nfs/nfs4proc.c:long:nfs4_update_delay",
  "fs/nfs/nfs4proc.c:u32:nfs4_fmode_to_share_access",
  "fs/nfs/nfs4proc.c:u32:nfs4_map_atomic_open_share",
  "fs/nfs/nfs4proc.c:enum open_claim_type4:nfs4_map_atomic_open_claim",
  "fs/nfs/nfs4proc.c:const nfs4_stateid *:nfs4_recoverable_stateid",
  "fs/nfs/nfs4proc.c:void:nfs4_bitmap_copy_adjust",
  "fs/nfs/nfs4proc.c:void:nfs4_slot_sequence_record_sent",
  "fs/nfs/nfs4proc.c:void:nfs4_slot_sequence_acked",
  "fs/nfs/nfs4proc.c:fmode_t:_nfs4_ctx_to_accessmode",
  "fs/nfs/nfs4proc.c:fmode_t:_nfs4_ctx_to_openmode",
  "fs/nfs/nfs4proc.c:bool:nfs4_server_supports_acls",
  "fs/nfs/nfs4proc.c:ssize_t:nfs4_proc_get_acl",
  "fs/nfs/nfs4proc.c:int:nfs4_proc_set_acl",
  "fs/nfs/nfs4proc.c:int:__nfs4_proc_set_acl",
  "fs/nfs/nfs4proc.c:void:nfs4_update_changeattr_locked",
  "fs/nfs/nfs4proc.c:int:nfs4_proc_unlink_done",
  "fs/nfs/nfs4proc.c:void:nfs4_fattr_set_prechange",
  "fs/nfs/nfs4proc.c:int:nfs4_exception_should_retrans",
  "fs/nfs/nfs4proc.c:bool:_nfs4_is_integrity_protected",
  "fs/nfs/nfs4proc.c:int:nfs4_sequence_process",
  "fs/nfs/nfs4proc.c:void:nfs4_sequence_free_slot",
  "fs/nfs/nfs4proc.c:bool:nfs4_clear_cap_atomic_open_v1",
  "fs/nfs/nfs4proc.c:bool:nfs4_mode_match_open_stateid",
  "fs/nfs/nfs4proc.c:int:can_open_cached",
  "fs/nfs/nfs4proc.c:void:update_open_stateflags",
  "fs/nfs/nfs4proc.c:bool:nfs_open_stateid_recover_openmode",
  "fs/nfs/nfs4proc.c:void:nfs_state_log_update_open_stateid",
  "fs/nfs/nfs4proc.c:void:nfs_resync_open_stateid_locked",
  "fs/nfs/nfs4proc.c:void:nfs_clear_open_stateid_locked",
  "fs/nfs/nfs4proc.c:void:nfs_state_clear_open_state_flags",
  "fs/nfs/nfs4proc.c:void:nfs_state_set_delegation",
  "fs/nfs/nfs4proc.c:void:nfs_state_clear_delegation",
  "fs/nfs/nfs4proc.c:int:nfs4_check_cl_exchange_flags",
  "fs/nfs/nfs4proc.c:bool:nfs41_same_server_scope",
  "fs/nfs/nfs4proc.c:int:nfs4_verify_fore_channel_attrs",
  "fs/nfs/nfs4proc.c:int:nfs4_verify_back_channel_attrs",
  "fs/nfs/nfs4proc.c:int:nfs4_verify_channel_attrs",
  "fs/nfs/nfs4proc.c:bool:nfs4_match_stateid",
  "fs/nfs/nfs4proc.c:bool:nfs41_match_stateid",
  "fs/nfs/nfs4proc.c:bool:nfs4_error_stateid_expired",
  "fs/nfs/nfs4proc.c:bool:_is_same_nfs4_pathname",
  "fs/nfs/nfs4proc.c:void:nfs4_sequence_attach_slot",
  "fs/nfs/nfs4proc.c:void:nfs4_inc_nlink_locked",
  "fs/nfs/nfs4proc.c:void:nfs4_inc_nlink",
  "fs/nfs/nfs4proc.c:void:nfs4_dec_nlink_locked",
  "fs/nfs/nfs4proc.c:void:nfs4_update_changeattr",
  "fs/nfs/nfs4proc.c:bool:nfs_stateid_is_sequential",
  "fs/nfs/nfs4proc.c:void:nfs_clear_open_stateid",
  "fs/nfs/nfs4proc.c:void:nfs4_return_incompatible_delegation",
  "fs/nfs/nfs4proc.c:void:nfs4_close_context",
  "fs/nfs/nfs4proc.c:bool:nfs4_read_plus_not_supported",
  "fs/nfs/nfs4proc.c:bool:nfs4_write_need_cache_consistency_data",
  "fs/nfs/nfs4proc.c:void:nfs4_bitmask_set",
  "fs/nfs/nfs4proc.c:int:nfs4_buf_to_pages_noslab",
  "fs/nfs/nfs4proc.c:void:nfs4_zap_acl_attr",
  "fs/nfs/nfs4proc.c:void:nfs_fixup_secinfo_attributes",
  "fs/nfs/nfs4proc.c:void:nfs4_disable_swap",
  "fs/nfs/nfs4proc.c:void:nfs4_init_boot_verifier",
  "fs/nfs/nfs4proc.c:void:do_renew_lease",
  "fs/nfs/nfs4proc.c:void:renew_lease",
  "fs/nfsd/export.c:int:expkey_parse",
  "fs/nfsd/export.c:int:svc_export_parse",
  "net/sunrpc/svcauth_unix.c:int:ip_map_parse",
  "fs/nfsd/nfs4state.c:void:nfsd4_end_grace"].map String.toList |>.filterMap Unstatic.read

/-- The entry for `do_mknodat`, added where `fs/namei.c` has it static. -/
def mknodat : Unstatic := ⟨"fs".toList, "namei".toList, "int".toList, "do_mknodat".toList, by decide, by decide⟩

/-- `grep -qE '^static .*\bdo_mknodat\('` -/
def staticMknodat (t : Tree) : Bool := mknodat.stillStatic (t.text mknodat.src)

def internalH : Path := ("fs".toList, "internal.h".toList)

/-- `grep -q '\bdo_mknodat\b'` -/
def declaresMknodat (t : Tree) : Bool := grep [.bound, .lit "do_mknodat".toList, .bound] (t.text internalH)

def mknodatPrototype : Text :=
  "int do_mknodat(int dfd, struct filename *name, umode_t mode, unsigned int dev);".toList

def declareMknodat (t : Tree) : Tree := t.append internalH ('\n' :: (mknodatPrototype ++ ['\n']))

def exposeAll (withMknodat : Bool) : Script Tree :=
  if withMknodat then
    seq (guarded declaresMknodat declareMknodat) (loop Unstatic.expose (UNSTATIC ++ [mknodat]))
  else loop Unstatic.expose UNSTATIC

/-! ## The tests to install -/

def moduleH : Path := ("include/linux".toList, "module.h".toList)

def NAMEI_RENAMES : List (Text × Text) := [
  ("do_mkdirat".toList, "filename_mkdirat".toList),
  ("do_rmdir".toList, "filename_rmdir".toList),
  ("do_unlinkat".toList, "filename_unlinkat".toList),
  ("do_renameat2".toList, "filename_renameat2".toList),
  ("do_linkat".toList, "filename_linkat".toList),
  ("do_symlinkat".toList, "filename_symlinkat".toList),
  ("do_mknodat".toList, "filename_mknodat".toList)]

def variant (t : Tree) : Variant where
  quoteModuleImportNs := !grep [.lit "__stringify(ns)".toList] (t.text moduleH)
  nameiRenames := NAMEI_RENAMES.filter fun pair => !grep [.bound, .lit pair.1, .bound] (t.text mknodat.src)

def unitTests : List Entry := [
  "addr_test:net/sunrpc:SUNRPC_ADDR_KUNIT_TEST:SUNRPC:SunRPC address conversion",
  "timer_test:net/sunrpc:SUNRPC_TIMER_KUNIT_TEST:SUNRPC:SunRPC RTT estimator",
  "nfs_common_test:fs/nfs_common:NFS_COMMON_KUNIT_TEST:NFS_COMMON:NFS status to errno translation",
  "xdr_test:net/sunrpc:SUNRPC_XDR_KUNIT_TEST:SUNRPC:SunRPC XDR codec",
  "nfs4session_test:fs/nfs:NFS_V4_SESSION_KUNIT_TEST:NFS_V4:NFSv4.1 session slot tables",
  "inode_test:fs/nfs:NFS_INODE_KUNIT_TEST:NFS_FS:NFS inode attribute comparison",
  "pnfs_test:fs/nfs:NFS_PNFS_KUNIT_TEST:NFS_V4:pNFS layout range arithmetic",
  "pnfs_layout_test:fs/nfs:NFS_PNFS_LAYOUT_KUNIT_TEST:NFS_V4:pNFS layout segment bookkeeping",
  "nfs4namespace_test:fs/nfs:NFS_V4_NAMESPACE_KUNIT_TEST:NFS_V4:NFSv4 namespace pathname handling",
  "pagelist_test:fs/nfs:NFS_PAGELIST_KUNIT_TEST:NFS_FS:NFS page request coalescing",
  "nfs4proc_test:fs/nfs:NFS_V4_PROC_KUNIT_TEST:NFS_V4:NFSv4 protocol decision logic"].map String.toList
    |>.filterMap Entry.read

/-- `${XFSTESTS_ENTRY}`, behind a stem. -/
def xfstestsEntry (stem : Text) (h : stem.all (fun c => isWordChar c || c == '/' || c == '-') = true) : Entry where
  stem := stem
  subdir := "fs".toList
  symbol := "NFS_XFSTESTS_KUNIT_TEST".toList
  depends := "NFSD".toList
  description := "xfstests ports over a loopback NFS mount".toList
  stem_ok := h
  symbol_ok := by decide
  depends_ok := by decide
  description_ok := by decide

def fixture : Entry := xfstestsEntry "xfstests/nfs_fixture".toList (by decide)

def portEntry (port : Port) : Entry :=
  xfstestsEntry ("xfstests/generic/".toList ++ port.name) (by
    rw [List.all_append, Bool.and_eq_true]
    refine ⟨by decide, List.all_eq_true.2 fun c hc => ?_⟩
    have := List.all_eq_true.1 port.ok c hc
    grind)

def tests (repo : Repo) : List Entry := unitTests ++ fixture :: repo.ports.map portEntry

/-! ## The options -/

def kunitconfig : Path := ("net/sunrpc".toList, ".kunitconfig".toList)

/-- `grep -qx 'config NFS_V4_1'` -/
def hasNfsV41 (t : Tree) : Bool :=
  decide ("config NFS_V4_1".toList ∈ lines (t.text ("fs/nfs".toList, "Kconfig".toList)))

def baseOpts : List Text :=
  ["CONFIG_KUNIT=y", "CONFIG_KUNIT_ALL_TESTS=y", "CONFIG_NET=y", "CONFIG_INET=y", "CONFIG_FILE_LOCKING=y",
    "CONFIG_MULTIUSER=y", "CONFIG_NFS_FS=y", "CONFIG_SUNRPC=y", "CONFIG_IPV6=y", "CONFIG_NFS_V4=y",
    "CONFIG_NFS_V4_2=y", "CONFIG_NFSD=y", "CONFIG_NFSD_V4=y", "CONFIG_TMPFS=y", "CONFIG_TMPFS_XATTR=y",
    "CONFIG_HOSTFS=y"].map String.toList

def coverageOpts : List Text :=
  ["CONFIG_DEBUG_KERNEL=y", "CONFIG_DEBUG_INFO=y", "CONFIG_DEBUG_INFO_DWARF_TOOLCHAIN_DEFAULT=y",
    "CONFIG_GCOV=y"].map String.toList

def symbolOpt (e : Entry) : Text := "CONFIG_".toList ++ e.symbol ++ "=y".toList

def kunitOpts (coverage nfsV41 : Bool) (es : List Entry) : List Text :=
  baseOpts ++ (if coverage then coverageOpts else []) ++ (if nfsV41 then ["CONFIG_NFS_V4_1=y".toList] else []) ++
    es.map symbolOpt

def hasOption (opt : Text) (t : Tree) : Bool := decide (opt ∈ lines (t.text kunitconfig))

/-- `echo "$opt" >> .kunitconfig`, unless `grep -qx "$opt"` finds it. -/
def addOption (opt : Text) : Script Tree :=
  guarded (hasOption opt) fun t => t.append kunitconfig (opt ++ ['\n'])

/-! ## The wiring -/

def fixFini (coverage : Bool) : Script Tree := if coverage then loop fixLds ldsFiles else skip

def exposeFunctions : Script Tree := reading staticMknodat exposeAll

def installTests (repo : Repo) : Script Tree := reading variant fun v => installAll repo v (tests repo)

def addOptions (repo : Repo) (coverage nfsV41 : Bool) : Script Tree :=
  loop addOption (kunitOpts coverage nfsV41 (tests repo))

def wireFrom (repo : Repo) (coverage nfsV41 : Bool) : Script Tree :=
  seq exposeFunctions (seq (installTests repo) (addOptions repo coverage nfsV41))

def wire (repo : Repo) (coverage : Bool) : Script Tree :=
  seq (fixFini coverage) (reading hasNfsV41 (wireFrom repo coverage))

end NfsPlayground.Wiring
