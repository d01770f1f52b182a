import Uartbus.Analysis.FileCalls
import Uartbus.Interface.ServedPaths

/-!
# Size, list and n-th entry of a directory

Function 5 counts the names of a directory and function 7 counts through them; function 6 leaves out
the list file.  The numbers function 6 gives out stay in the registry (`Extends`), so function 7
gives the same ones, for the same names.  The three agree exactly on the directories that have no
entry with the name of the list file, and the served directory itself always has one.
-/

set_option autoImplicit false

namespace Uartbus.Analysis

open Lib Interface Model

variable {l : List RpcValue} {name : FileName} {new old : FileRegistry} {i : ℕ}

/-! ## Numbers stay -/

/-- Numbers were only added. -/
structure Extends (old new : FileRegistry) : Prop where
  root_eq : new.root = old.root
  paths : old.paths <+: new.paths
  lookup : ∀ path i, old.byPath.lookup path = some i → new.byPath.lookup path = some i

theorem Extends.refl (registry : FileRegistry) : Extends registry registry :=
  ⟨rfl, List.prefix_rfl, fun _ _ h => h⟩

theorem Extends.trans {a b c : FileRegistry} (h : Extends a b) (h' : Extends b c) : Extends a c :=
  ⟨h'.root_eq.trans h.root_eq, h.paths.trans h'.paths,
    fun path i hi => h'.lookup path i (h.lookup path i hi)⟩

theorem Extends.pathOf (h : Extends old new) {k : ℤ} {path : Text}
    (hpath : old.pathOf k = some path) : new.pathOf k = some path := by
  unfold FileRegistry.pathOf at hpath ⊢
  obtain ⟨index, hindex, hget⟩ := Option.bind_eq_some_iff.mp hpath
  rw [hindex, Option.bind_some]
  obtain ⟨more, hmore⟩ := h.paths
  rw [← hmore, List.getElem?_append_left (List.getElem?_eq_some_iff.mp hget).1]
  exact hget

section Numbers

variable {η : Type} (respond : FileRequest → η → FileAnswer × η) (base : FileRegistry)

/-- A path gets a number that no other path had. -/
theorem register_extends (path : Text) :
    (FileRegistry.register path).Leads respond
      (fun registry _ => registry = base ∧ base.byPath.lookup path = none)
      fun r registry _ => Extends base registry ∧
        ∀ i, r = .ok i → registry.byPath.lookup path = some i := by
  refine .bind (M := fun _ registry _ => registry = base ∧ base.byPath.lookup path = none)
    (.request fun _ _ h => h) (fun answer => .ite (fun _ => ?_) fun _ => ?_) ?_
  · intro registry w hP r registry' w' hexec
    obtain ⟨rfl, hnone⟩ := hP
    cases hexec
    refine ⟨⟨rfl, List.prefix_append _ _, fun p i hi => ?_⟩, fun i hi => ?_⟩
    · have hne : p ≠ path := by
        rintro rfl
        rw [hnone] at hi
        cases hi
      rw [List.lookup_cons, beq_eq_false_iff_ne.mpr hne]
      exact hi
    · cases hi
      rw [List.lookup_cons, beq_self_eq_true]
  · exact .fail fun _ _ h => ⟨h.1 ▸ Extends.refl _, by simp⟩
  · exact fun _ _ _ h => ⟨h.1 ▸ Extends.refl _, by simp⟩

/-- The number of a path is one it keeps. -/
theorem numberOf_extends {path : Text} (hpath : path ≠ []) :
    (FileRegistry.numberOf path).Leads respond (fun registry _ => registry = base)
      fun r registry _ => Extends base registry ∧
        ∀ i, r = .ok i → registry.byPath.lookup path = some i := by
  have hfail : ∀ e : FtpErrno, (Procedure.fail e : RegistryProcedure FtpErrno ℕ).Leads respond
      (fun registry _ => registry = base) fun r registry _ => Extends base registry ∧
        ∀ i, r = .ok i → registry.byPath.lookup path = some i :=
    fun e => .fail fun _ _ h => ⟨h ▸ Extends.refl _, by simp⟩
  unfold FileRegistry.numberOf
  rw [if_neg hpath]
  intro registry w hregistry
  subst hregistry
  refine Procedure.Leads.read_bind (P := fun r _ => r = registry) (fun registry₀ => ?_) registry w
    rfl
  intro s w' hs
  obtain ⟨rfl, rfl⟩ := hs
  cases hlookup : s.byPath.lookup path with
  | some index =>
    intro r s' w'' hexec
    cases hexec
    refine ⟨Extends.refl _, fun i hi => ?_⟩
    cases hi
    exact hlookup
  | none =>
    refine Procedure.Leads.ite (P := fun r _ => r = s) (fun _ => hfail _) (fun _ => ?_) s w' rfl
    refine .bind (M := fun _ registry _ => registry = s) (.request fun _ _ h => h)
      (fun answer => .ite (fun _ => ?_) fun _ => hfail _)
      fun _ _ _ h => ⟨h ▸ Extends.refl _, by simp⟩
    intro registry w hregistry
    exact Procedure.Leads.mapError (register_extends respond s path)
      (fun i _ _ h => ⟨h.1, fun j hj => h.2 j (congrArg Except.ok (Except.ok.inj hj))⟩)
      (fun _ _ _ h => ⟨h.1, by simp⟩) registry w ⟨hregistry, hlookup⟩

/-- The path of an entry, as function 7 puts it together. -/
def entryPath (path : Text) (name : FileName) : Text :=
  path.rdropWhile (· = '/') ++ '/' :: name.text

theorem entryPath_ne_nil (path : Text) (name : FileName) : entryPath path name ≠ [] := by
  simp [entryPath]

/-- Function 6 puts it together in the same way. -/
theorem child_entry {path : Text} (h : name.text ≠ listFileName) :
    Ftp.child path name.text = pure (entryPath path name) := by
  have hplain : ¬ (name.text = [] ∨ name.text = ['.'] ∨ name.text = ['.', '.'] ∨
      name.text = listFileName ∨ '/' ∈ name.text) := by
    simp [name.ne_nil, name.ne_dot, name.ne_dots, h, name.no_slash]
  rw [Ftp.child, childPath, if_neg hplain]
  rfl

theorem numbered_extends {path : Text} (hpath : path ≠ []) :
    (Ftp.numbered path).Leads respond (fun state _ => state.registry = base)
      fun r state _ => Extends base state.registry ∧
        ∀ i, r = .ok i → state.registry.byPath.lookup path = some i := by
  refine .onPart fun state registry w hP r registry' w' hexec => ?_
  have hend := numberOf_extends respond base hpath registry w (hP.1.trans hP.2) r registry' w' hexec
  refine ⟨hend.1, fun i hi => hend.2 i ?_⟩
  cases r with
  | ok a => exact congrArg Except.ok (Except.ok.inj hi)
  | error e => cases hi

/-- The value is the number of the entry. -/
def NumberOfEntry (registry : FileRegistry) (path : Text) (name : FileName) (v : RpcValue) : Prop :=
  ∃ i : ℕ, v = .vUnsigned i ∧ registry.byPath.lookup (entryPath path name) = some i

theorem NumberOfEntry.extends (h : Extends old new) {path : Text} {v : RpcValue}
    (hv : NumberOfEntry old path name v) : NumberOfEntry new path name v := by
  obtain ⟨i, rfl, hi⟩ := hv
  exact ⟨i, rfl, h.lookup _ i hi⟩

/-- The loop of function 6: one number for each name, all of them in the registry at the end. -/
theorem listNumbers_extends (path : Text) (names : List FileName)
    (hnames : ∀ name ∈ names, name.text ≠ listFileName) (numbers : List RpcValue) :
    (Ftp.listNumbers path names numbers).Leads respond (fun state _ => state.registry = base)
      fun r state _ => Extends base state.registry ∧ ∀ l, r = .ok l →
        ∃ found, l = numbers ++ found ∧
          List.Forall₂ (NumberOfEntry state.registry path) names found := by
  induction names generalizing numbers base with
  | nil =>
    refine .pure fun _ _ h => ⟨h ▸ Extends.refl _, fun l hl => ⟨[], ?_, .nil⟩⟩
    cases hl
    exact (List.append_nil _).symm
  | cons name names ih =>
    rw [Ftp.listNumbers, child_entry (hnames name List.mem_cons_self)]
    change (Ftp.numbered (entryPath path name) >>= _ : FtpProcedure _).Leads _ _ _
    refine .bind (numbered_extends respond base (entryPath_ne_nil path name)) (fun number => ?_)
      fun _ _ _ h => ⟨h.1, by simp⟩
    intro state w h r state' w' hexec
    obtain ⟨hextends, hgrown⟩ := ih state.registry
      (fun n hn => hnames n (List.mem_cons_of_mem name hn)) (numbers ++ [.vUnsigned number]) state
      w rfl r state' w' hexec
    refine ⟨h.1.trans hextends, fun l hl => ?_⟩
    obtain ⟨found, hfound, hall⟩ := hgrown l hl
    refine ⟨.vUnsigned number :: found, by rw [hfound, List.append_assoc]; rfl, .cons ?_ hall⟩
    exact NumberOfEntry.extends hextends ⟨number, rfl, h.2 number rfl⟩

end Numbers

/-! ## The three functions -/

section Calls

variable {η : Type} (respond : FileRequest → η → FileAnswer × η)

theorem exec_asks {α : Type} (request : FileRequest) (f : Bool → FtpProcedure α) (state : FtpState)
    (w : η) :
    ((Ftp.asks request >>= f) state).exec respond w =
      (f (respond request w).1.ok state).exec respond (respond request w).2 := rfl

theorem exec_sortedDirNames {α : Type} (dir : Text) (error : ServiceError)
    (f : List FileName → FtpProcedure α) (state : FtpState) (w : η) :
    ((sortedDirNames dir error >>= f) state).exec respond w =
      if (respond (.readDir dir) w).1.ok then
        (f ((respond (.readDir dir) w).1.names.mergeSort nameLe) state).exec respond
          (respond (.readDir dir) w).2
      else some ((.error error, state), (respond (.readDir dir) w).2) := by
  show (((if (respond (.readDir dir) w).1.ok then
    pure ((respond (.readDir dir) w).1.names.mergeSort nameLe) else Procedure.fail error :
      FtpProcedure (List FileName)) >>= f) state).exec respond (respond (.readDir dir) w).2 = _
  cases (respond (.readDir dir) w).1.ok <;> rfl

end Calls

variable {files : StillFiles} {registry : FileRegistry} {k clock : ℕ} {path : Text}

/-- The names of the directory in the order the functions see them. -/
def sortedEntries (files : StillFiles) (dir : Text) : List FileName :=
  (files.entries dir).mergeSort nameLe

/-- Function 5 of a directory. -/
theorem size_call (clock : ℕ) (hpath : registry.pathOf k = some path)
    (hdir : (files.answer (.isDir (fsPath registry.root path))).ok = true) :
    serviceCall files.respond 5 [.vUnsigned k] registry clock =
      some (if (files.answer (.readDir (fsPath registry.root path))).ok then
        .ok (Ftp.vu (sortedEntries files (fsPath registry.root path)).length)
      else .error (.posix FtpErrno.eio.value), registry, clock + 2) := by
  obtain ⟨pre, hcall⟩ := serviceCall_function files.respond hpath appendElements_nil
  rw [hcall]
  generalize fsPath registry.root path = file at hdir ⊢
  change ((Ftp.size file _).exec files.respond clock).map _ = _
  have hisDir : (files.respond (.isDir file) clock).1.ok = true := hdir
  have hread : (files.respond (.readDir file) (files.respond (.isDir file) clock).2).1.ok =
      (files.answer (.readDir file)).ok := rfl
  rw [Ftp.size, exec_asks, hisDir, if_pos rfl, exec_sortedDirNames, hread]
  cases (files.answer (.readDir file)).ok <;> rfl

/-- The names function 6 goes through. -/
def listedEntries (files : StillFiles) (dir : Text) : List FileName :=
  (sortedEntries files dir).filter fun name => decide (name.text ≠ listFileName)

theorem listedEntries_ne (files : StillFiles) (dir : Text) :
    ∀ name ∈ listedEntries files dir, name.text ≠ listFileName :=
  fun _ hname => of_decide_eq_true (List.mem_filter.mp hname).2

/-- What the function 6 returns are the numbers of the listed entries. -/
theorem list_call (hpath : registry.pathOf k = some path) {registry' : FileRegistry} {clock' : ℕ}
    (hlist : serviceCall files.respond 6 [.vUnsigned k] registry clock =
      some (.ok (.value (.array l)), registry', clock')) :
    Extends registry registry' ∧
      List.Forall₂ (NumberOfEntry registry' path)
        (listedEntries files (fsPath registry.root path)) l := by
  obtain ⟨pre, hcall⟩ := serviceCall_function files.respond hpath appendElements_nil
  rw [hcall] at hlist
  generalize fsPath registry.root path = file at hlist ⊢
  change ((Ftp.list path file _).exec files.respond clock).map _ = _ at hlist
  rw [Ftp.list, exec_sortedDirNames] at hlist
  cases hread : (files.answer (.readDir file)).ok with
  | false =>
    rw [if_neg (by simp [StillFiles.respond, hread])] at hlist
    cases hlist
  | true =>
    rw [if_pos (by simpa [StillFiles.respond] using hread)] at hlist
    obtain ⟨⟨⟨reply, state⟩, w⟩, hexec, hreply⟩ := Option.map_eq_some_iff.mp hlist
    change ((Ftp.listNumbers path (listedEntries files file) [] _).bind _).exec _ _ = _ at hexec
    rw [Program.exec_bind] at hexec
    obtain ⟨⟨⟨result, state₁⟩, w₁⟩, hnumbers, hend⟩ := Option.bind_eq_some_iff.mp hexec
    obtain ⟨hextends, hfound⟩ := listNumbers_extends files.respond registry path
      (listedEntries files file) (listedEntries_ne files file) [] _ _ rfl result state₁ w₁ hnumbers
    cases result with
    | error e =>
      cases hend
      cases hreply
    | ok numbers =>
      cases hend
      cases hreply
      obtain ⟨found, rfl, hall⟩ := hfound _ rfl
      exact ⟨hextends, hall⟩

/-- An entry that has a number is not registered again. -/
theorem numbered_known (params : PacketReader)
    (hlookup : registry.byPath.lookup (entryPath path name) = some i) :
    Ftp.numbered (entryPath path name) ⟨params, registry⟩ =
      .done (.ok i, ⟨params, registry⟩) := by
  have hnumberOf : FileRegistry.numberOf (entryPath path name) registry =
      .done (.ok i, registry) := by
    have hread : (Procedure.read : RegistryProcedure FtpErrno FileRegistry) registry =
        .done (.ok registry, registry) := rfl
    unfold FileRegistry.numberOf
    rw [if_neg (entryPath_ne_nil path name), Procedure.bind_done hread, hlookup]
    rfl
  show (FileRegistry.numberOf (entryPath path name) registry).bind _ = _
  rw [hnumberOf]
  rfl

theorem listNumbers_known (params : PacketReader) {names : List FileName} {found : List RpcValue}
    (hfound : List.Forall₂ (NumberOfEntry registry path) names found)
    (hnames : ∀ name ∈ names, name.text ≠ listFileName) (numbers : List RpcValue) :
    Ftp.listNumbers path names numbers ⟨params, registry⟩ =
      .done (.ok (numbers ++ found), ⟨params, registry⟩) := by
  induction hfound generalizing numbers with
  | nil =>
    rw [List.append_nil]
    rfl
  | @cons name v names found hv _ ih =>
    obtain ⟨i, rfl, hlookup⟩ := hv
    rw [Ftp.listNumbers, child_entry (hnames name List.mem_cons_self)]
    change (Ftp.numbered (entryPath path name) >>= _ : FtpProcedure _) _ = _
    rw [Procedure.bind_done (numbered_known params hlookup),
      ih (fun n hn => hnames n (List.mem_cons_of_mem name hn)), List.append_assoc]
    rfl

/-- A directory whose entries have numbers is listed with those. -/
theorem list_call_known (clock : ℕ) (hpath : registry.pathOf k = some path)
    (hread : (files.answer (.readDir (fsPath registry.root path))).ok = true)
    (hl : List.Forall₂ (NumberOfEntry registry path)
      (listedEntries files (fsPath registry.root path)) l) :
    serviceCall files.respond 6 [.vUnsigned k] registry clock =
      some (.ok (.value (.array l)), registry, clock + 1) := by
  obtain ⟨pre, hcall⟩ := serviceCall_function files.respond hpath appendElements_nil
  rw [hcall]
  generalize fsPath registry.root path = file at hread hl ⊢
  change ((Ftp.list path file _).exec files.respond clock).map _ = _
  have hnames : (files.respond (.readDir file) clock).1.ok = true := hread
  rw [Ftp.list, exec_sortedDirNames, if_pos hnames]
  change (((Ftp.listNumbers path (listedEntries files file) [] >>= _ : FtpProcedure _) _).exec
    files.respond (clock + 1)).map _ = _
  rw [Procedure.bind_done (listNumbers_known _ hl (listedEntries_ne files file) [])]
  rfl

/-- What function 7 does with the name at its index. -/
def nthReply (path : Text) : Option FileName → FtpProcedure Ftp.Reply
  | some name => do
    let number ← Ftp.numbered (entryPath path name)
    pure (Ftp.vu number)
  | none => Ftp.posix .enotdir

/-- Nothing is left out exactly when no entry has the name of the list file. -/
theorem listedEntries_length_eq_iff (files : StillFiles) (dir : Text) :
    (listedEntries files dir).length = (sortedEntries files dir).length ↔
      ∀ name ∈ files.entries dir, name.text ≠ listFileName := by
  rw [listedEntries, List.length_filter_eq_length_iff]
  simp [sortedEntries]

section Directory

variable (hpath : registry.pathOf k = some path)
  (hdir : (files.answer (.isDir (fsPath registry.root path))).ok = true)
  (hread : (files.answer (.readDir (fsPath registry.root path))).ok = true)
include hpath hdir hread

/-- A call of the function 7. -/
theorem nthChild_call (clock i : ℕ) :
    ∃ params : PacketReader,
      serviceCall files.respond 7 [.vUnsigned k, .vUnsigned i] registry clock =
        ((nthReply path ((FileRegistry.toU64 i).bind fun i =>
          (sortedEntries files (fsPath registry.root path))[i]?) ⟨params, registry⟩).exec
            files.respond (clock + 2)).map
          fun r : (Except ServiceError Ftp.Reply × FtpState) × ℕ =>
            (r.1.1, r.1.2.registry, r.2) := by
  obtain ⟨bytes, happend, hparam⟩ := readType_unsigned i
  obtain ⟨pre, hcall⟩ := serviceCall_function files.respond hpath (appendElements_one happend)
  have hindex := hparam pre []
  rw [List.append_nil] at hindex
  refine ⟨⟨pre ++ bytes, pre.length + bytes.length⟩, ?_⟩
  rw [hcall]
  generalize fsPath registry.root path = file at hdir hread ⊢
  change ((Ftp.nthChild path file _).exec files.respond clock).map _ = _
  have hisDir : (files.respond (.isDir file) clock).1.ok = true := hdir
  have hnames : (files.respond (.readDir file) (files.respond (.isDir file) clock).2).1.ok = true :=
    hread
  have hentries : (files.respond (.readDir file) (files.respond (.isDir file) clock).2).1.names =
      files.entries file := rfl
  rw [Ftp.nthChild, Procedure.bind_done (readNumber_unsigned registry hindex), exec_asks, hisDir,
    if_pos rfl, exec_sortedDirNames, if_pos hnames, hentries]
  cases hchosen : (FileRegistry.toU64 i).bind fun i => (sortedEntries files file)[i]? <;>
    rw [sortedEntries] at hchosen <;> rw [hchosen] <;> rfl

/-- A name that has a number is answered with it. -/
theorem nthChild_entry (clock : ℕ)
    (hname : (sortedEntries files (fsPath registry.root path))[i]? = some name) (hi : i < 2 ^ 64)
    {number : RpcValue} (hnumber : NumberOfEntry registry path name number) :
    serviceCall files.respond 7 [.vUnsigned k, .vUnsigned i] registry clock =
      some (.ok (.value number), registry, clock + 2) := by
  obtain ⟨j, rfl, hlookup⟩ := hnumber
  obtain ⟨params, hcall⟩ := nthChild_call hpath hdir hread clock i
  rw [hcall, toU64_natCast_of_lt hi, Option.bind_some, hname, nthReply,
    Procedure.bind_done (numbered_known params hlookup)]
  rfl

/-- There is no name at an index behind the last one. -/
theorem nthChild_beyond (clock : ℕ)
    (hi : (sortedEntries files (fsPath registry.root path)).length ≤ i) :
    serviceCall files.respond 7 [.vUnsigned k, .vUnsigned i] registry clock =
      some (.error (.posix FtpErrno.enotdir.value), registry, clock + 2) := by
  obtain ⟨params, hcall⟩ := nthChild_call hpath hdir hread clock i
  have hnone : ((FileRegistry.toU64 i).bind fun i =>
      (sortedEntries files (fsPath registry.root path))[i]?) = none := by
    rcases Nat.lt_or_ge i (2 ^ 64) with hlt | hge
    · rw [toU64_natCast_of_lt hlt, Option.bind_some, List.getElem?_eq_none hi]
    · rw [toU64_natCast_of_ge hge, Option.bind_none]
  rw [hcall, hnone]
  rfl

/-! ## Agreement -/

/-- The entries agree when the list file is none of them. -/
theorem entriesAgree_iff
    (hl : List.Forall₂ (NumberOfEntry registry path)
      (listedEntries files (fsPath registry.root path)) l) :
    EntriesAgree files registry k (sortedEntries files (fsPath registry.root path)).length l ↔
      ∀ name ∈ files.entries (fsPath registry.root path), name.text ≠ listFileName := by
  rw [← listedEntries_length_eq_iff, hl.length_eq]
  constructor
  · exact fun h => h.length_eq
  · intro hlength
    have hall : listedEntries files (fsPath registry.root path) =
        sortedEntries files (fsPath registry.root path) :=
      List.filter_eq_self.mpr (List.length_filter_eq_length_iff.mp (hl.length_eq.trans hlength))
    rw [hall] at hl
    refine ⟨hlength, fun i hi clock => ?_, fun i hi clock => ?_⟩
    · have hsmall : (sortedEntries files (fsPath registry.root path)).length < 2 ^ 64 := by
        rw [sortedEntries, List.length_mergeSort]
        exact files.names_lt _
      have hil : i < l.length := hlength ▸ hi
      refine ⟨l[i], clock + 2, List.getElem?_eq_getElem hil, ?_⟩
      exact nthChild_entry hpath hdir hread clock (List.getElem?_eq_getElem hi)
        (Nat.lt_trans hi hsmall) (hl.get hi hil)
    · exact ⟨_, _, nthChild_beyond hpath hdir hread clock hi⟩

end Directory

/-- **Functions 5, 6 and 7.**  Where function 5 and function 6 answer for a directory that does not
change, function 7 keeps to their answers, and the answers to each other, exactly when no entry has
the name of the list file.
SOURCE: rpc/ftp.rs:129-168, 273-309 -/
theorem directoryFunctionsAgree_iff (files : StillFiles) (registry : FileRegistry) (clock k : ℕ)
    (path : Text) (hpath : registry.pathOf k = some path)
    (hdir : (files.answer (.isDir (fsPath registry.root path))).ok = true) (n : ℕ)
    (l : List RpcValue) (registry₅ registry₆ : FileRegistry) (clock₅ clock₆ : ℕ)
    (hsize : serviceCall files.respond 5 [.vUnsigned k] registry clock =
      some (.ok (Ftp.vu n), registry₅, clock₅))
    (hlist : serviceCall files.respond 6 [.vUnsigned k] registry₅ clock₅ =
      some (.ok (.value (.array l)), registry₆, clock₆)) :
    DirectoryFunctionsAgree files registry clock k ↔
      ∀ name ∈ files.entries (fsPath registry.root path), name.text ≠ listFileName := by
  have hcall := size_call clock hpath hdir
  rw [hsize] at hcall
  have hread : (files.answer (.readDir (fsPath registry.root path))).ok = true := by
    by_contra hfails
    rw [if_neg hfails] at hcall
    cases hcall
  rw [if_pos hread] at hcall
  cases hcall
  obtain ⟨hextends, hnumbers⟩ := list_call hpath hlist
  rw [← hextends.root_eq] at hdir hread hnumbers hsize ⊢
  have hagree := entriesAgree_iff (hextends.pathOf hpath) hdir hread hnumbers
  rw [← hagree]
  constructor
  · exact fun h => h _ _ _ _ _ _ hsize hlist
  · intro h n' l' registry₅' registry₆' clock₅' clock₆' hsize' hlist'
    cases hsize.symm.trans hsize'
    cases hlist.symm.trans hlist'
    exact h

/-- A file system where every directory has the entries. -/
def entryFiles (names : List FileName) (h : names.length < 2 ^ 64) : StillFiles where
  answer _ := ⟨true, names, 0, []⟩
  appends _ := ⟨true, [], 0, []⟩
  names_lt _ := h

section Entries

variable {names : List FileName} (h : names.length < 2 ^ 64)
  (hsorted : names.Pairwise fun a b => nameLe a b = true)
include hsorted

/-- Names that are in order stay as they are. -/
theorem sortedEntries_entryFiles (dir : Text) : sortedEntries (entryFiles names h) dir = names :=
  List.mergeSort_of_pairwise hsorted

/-- The size of such a directory is the number of its entries. -/
theorem entryFiles_size (clock : ℕ) (hpath : registry.pathOf k = some path) :
    serviceCall (entryFiles names h).respond 5 [.vUnsigned k] registry clock =
      some (.ok (Ftp.vu names.length), registry, clock + 2) := by
  rw [size_call clock hpath rfl, sortedEntries_entryFiles h hsorted]
  rfl

end Entries

/-- The files `a` and `b`. -/
def plainEntries : List FileName :=
  [⟨['a'], by decide, by decide, by decide, by decide⟩,
    ⟨['b'], by decide, by decide, by decide, by decide⟩]

/-- The list file. -/
def listFileEntry : FileName := ⟨listFileName, by decide, by decide, by decide, by decide⟩

/-- The served directory, a directory in it and the two files in that one, `b` before `a`. -/
def nestedRegistry : FileRegistry :=
  ⟨"/srv".toList, [['/'], "/d".toList, "/d/b".toList, "/d/a".toList],
    [(['/'], 0), ("/d".toList, 1), ("/d/b".toList, 2), ("/d/a".toList, 3)]⟩

/-- A directory of two files has the size 2 and is listed with their numbers, in the order of their
names, and function 7 gives the same ones.
SOURCE: rpc/ftp.rs:273-309 -/
theorem plainEntry_agrees :
    serviceCall (entryFiles plainEntries (by decide)).respond 5 [.vUnsigned (1 : ℕ)]
        nestedRegistry 0 = some (.ok (Ftp.vu 2), nestedRegistry, 2) ∧
      serviceCall (entryFiles plainEntries (by decide)).respond 6 [.vUnsigned (1 : ℕ)]
        nestedRegistry 2 =
          some (.ok (.value (.array [.vUnsigned (3 : ℕ), .vUnsigned (2 : ℕ)])), nestedRegistry, 3) ∧
      DirectoryFunctionsAgree (entryFiles plainEntries (by decide)) nestedRegistry 0 1 := by
  have hpath : nestedRegistry.pathOf (1 : ℕ) = some "/d".toList := by decide
  have hsorted : plainEntries.Pairwise fun a b => nameLe a b = true := by decide
  have hsize := entryFiles_size (by decide) hsorted 0 hpath
  have hlist : serviceCall (entryFiles plainEntries (by decide)).respond 6 [.vUnsigned (1 : ℕ)]
      nestedRegistry 2 =
        some
          (.ok (.value (.array [.vUnsigned (3 : ℕ), .vUnsigned (2 : ℕ)])), nestedRegistry, 3) := by
    refine list_call_known 2 hpath rfl ?_
    rw [listedEntries, sortedEntries_entryFiles _ hsorted]
    exact .cons ⟨3, rfl, by decide⟩ (.cons ⟨2, rfl, by decide⟩ .nil)
  refine ⟨hsize, hlist, ?_⟩
  refine (directoryFunctionsAgree_iff _ _ 0 1 _ hpath rfl _ _ _ _ _ _ hsize hlist).mpr ?_
  intro name hname
  rcases List.mem_pair.mp hname with rfl | rfl <;> decide

/-- The served directory without files in it: its size is 1, for the list file, and its list is
empty.
SOURCE: rpc/ftp.rs:273-295 -/
theorem listFileEntry_not_agrees :
    ¬ DirectoryFunctionsAgree (entryFiles [listFileEntry] (by decide)) rootRegistry 0 0 := by
  intro h
  have hpath : rootRegistry.pathOf (0 : ℕ) = some ['/'] := by decide
  have hsorted : [listFileEntry].Pairwise fun a b => nameLe a b = true :=
    List.pairwise_singleton _ _
  have hlist : serviceCall (entryFiles [listFileEntry] (by decide)).respond 6
      [.vUnsigned (0 : ℕ)] rootRegistry 2 = some (.ok (.value (.array [])), rootRegistry, 3) := by
    refine list_call_known 2 hpath rfl ?_
    rw [listedEntries, sortedEntries_entryFiles _ hsorted]
    exact .nil
  have hagree := h _ _ _ _ _ _ (entryFiles_size _ hsorted 0 hpath) hlist
  exact absurd hagree.length_eq (by decide)

end Uartbus.Analysis
