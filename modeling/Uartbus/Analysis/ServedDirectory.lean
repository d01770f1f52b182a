import Uartbus.Interface.ServedPaths

/-!
# The served directory is not left

The functions put paths together in four places: the parent, the list, the n-th child and the new
file.  Each of them gives a path of plain names again (`parentOf_served`, `child_served`), and
`number_of` registers such a path only if none of its names is the one of the list file.  So every
request of every function is about a place in the directory.  `discover`, which puts paths together
before the first function is called, is followed in `FileNumbers`.
-/

set_option autoImplicit false

namespace Uartbus.Analysis

open Lib Interface Model

/-! ## Paths -/

variable {root name path : Text} {names : List Text}

theorem fileName_plain (name : FileName) : PlainName name.text :=
  ⟨name.ne_nil, name.no_slash, name.ne_dot, name.ne_dots⟩

theorem slashed_concat (names : List Text) (name : Text) :
    slashed (names ++ [name]) = slashed names ++ '/' :: name := by
  simp [slashed]

theorem servedPath_concat (names : List Text) (name : Text) :
    servedPath (names ++ [name]) = slashed names ++ '/' :: name := by
  rw [servedPath, if_neg (by simp), slashed_concat]

/-- The last character of a plain name is no slash. -/
theorem plainName_getLast_ne (h : PlainName name) : name.getLast? ≠ some '/' :=
  fun hlast => h.no_slash (List.mem_of_getLast? hlast)

theorem plainName_head_ne (h : PlainName name) (rest : Text) :
    ¬ (name ++ rest).head? = some '/' := by
  obtain ⟨c, tail, rfl⟩ := List.exists_cons_of_ne_nil h.ne_nil
  intro heq
  exact h.no_slash (by simp_all)

theorem plainNames_concat (h : ∀ n ∈ names, PlainName n) (hname : PlainName name) :
    ∀ n ∈ names ++ [name], PlainName n :=
  List.forall_mem_append.mpr ⟨h, List.forall_mem_singleton.mpr hname⟩

/-- The path without the slashes at its end. -/
theorem rdropWhile_servedPath (h : ∀ name ∈ names, PlainName name) :
    (servedPath names).rdropWhile (· = '/') = slashed names := by
  induction names using List.reverseRecOn with
  | nil => rfl
  | append_singleton names name _ =>
    have hname : PlainName name := h name (by simp)
    obtain ⟨init, last, rfl⟩ : ∃ init last, name = init ++ [last] :=
      ⟨_, _, (List.dropLast_append_getLast hname.ne_nil).symm⟩
    have hlast : ¬ last = '/' := fun heq => hname.no_slash (by simp [heq])
    rw [servedPath_concat, slashed_concat, ← List.cons_append, ← List.append_assoc,
      List.rdropWhile_concat_neg _ _ _ (by simpa using hlast)]

/-- A plain name behind a path is a path again. -/
theorem child_eq_servedPath (h : ∀ name ∈ names, PlainName name) (name : Text) :
    (servedPath names).rdropWhile (· = '/') ++ '/' :: name = servedPath (names ++ [name]) := by
  rw [rdropWhile_servedPath h, servedPath_concat]

/-- What is before the last slash. -/
theorem parentOf_concat (names : List Text) (h : PlainName name) :
    Ftp.parentOf (slashed names ++ '/' :: name) = slashed names := by
  have hname : ∀ c ∈ name, decide (c ≠ '/') = true := by
    intro c hc
    exact decide_eq_true fun heq => h.no_slash (heq ▸ hc)
  have hdrop : (slashed names ++ '/' :: name).rdropWhile (fun c => decide (c ≠ '/')) =
      slashed names ++ ['/'] := by
    unfold List.rdropWhile
    rw [List.reverse_append, List.reverse_cons, List.append_assoc,
      List.dropWhile_append_of_pos (fun c hc => hname c (List.mem_reverse.mp hc))]
    simp
  unfold Ftp.parentOf
  rw [hdrop, List.dropLast_concat]

/-- The path with the first slash taken away. -/
theorem dropWhile_slashed (h : PlainName name) (names : List Text) :
    (slashed (name :: names)).dropWhile (· = '/') = name ++ slashed names := by
  obtain ⟨c, rest, rfl⟩ := List.exists_cons_of_ne_nil h.ne_nil
  have hc : ¬ c = '/' := fun heq => h.no_slash (by simp [heq])
  simp [slashed, hc]

/-- A name is joined with a slash, behind whatever ends in a plain name. -/
theorem pathJoin_name (hpath : path ≠ []) (hlast : path.getLast? ≠ some '/')
    (h : PlainName name) (rest : Text) :
    pathJoin path (name ++ rest) = path ++ '/' :: name ++ rest := by
  unfold pathJoin
  rw [if_neg (plainName_head_ne h rest), if_neg (by rintro (h | h) <;> contradiction)]
  simp

/-- Joining a plain name gives something that does not end in a slash. -/
theorem pathJoin_getLast (path : Text) (h : PlainName name) :
    pathJoin path name ≠ [] ∧ (pathJoin path name).getLast? ≠ some '/' := by
  have hname := plainName_getLast_ne h
  obtain ⟨init, last, rfl⟩ : ∃ init last, name = init ++ [last] :=
    ⟨_, _, (List.dropLast_append_getLast h.ne_nil).symm⟩
  unfold pathJoin
  split
  · exact ⟨by simp, hname⟩
  split
  · simp_all
  · simp_all [List.getLast?_cons]

theorem below_of_join (hpath : path ≠ []) (hlast : path.getLast? ≠ some '/')
    (h : ∀ name ∈ names, PlainName name) : below path names = path ++ slashed names := by
  induction names generalizing path with
  | nil => simp [below, slashed]
  | cons name names ih =>
    have hname := h name List.mem_cons_self
    obtain ⟨hne, hend⟩ := pathJoin_getLast path hname
    have hjoin := pathJoin_name hpath hlast hname []
    rw [List.append_nil, List.append_nil] at hjoin
    have hrest := ih hne hend fun n hn => h n (List.mem_cons_of_mem name hn)
    change below (pathJoin path name) names = _
    rw [hrest, hjoin]
    simp [slashed]

/-- Joining the rest of a path at once is joining its names one after another. -/
theorem pathJoin_slashed (root : Text) (hname : PlainName name)
    (h : ∀ name ∈ names, PlainName name) :
    pathJoin root (name ++ slashed names) = below root (name :: names) := by
  obtain ⟨hne, hend⟩ := pathJoin_getLast root hname
  change _ = below (pathJoin root name) names
  rw [below_of_join hne hend h]
  have hplain := plainName_head_ne hname []
  rw [List.append_nil] at hplain
  unfold pathJoin
  rw [if_neg (plainName_head_ne hname _), if_neg hplain]
  split <;> simp

/-- **Where a served path is in the file system.** -/
theorem fsPath_servedPath (root : Text) (h : ∀ name ∈ names, PlainName name) :
    fsPath root (servedPath names) = below root names := by
  cases names with
  | nil => rfl
  | cons name names =>
    have hname := h name List.mem_cons_self
    unfold fsPath servedPath
    rw [if_neg (List.cons_ne_nil _ _), dropWhile_slashed hname]
    have hne : ¬ name ++ slashed names = [] := fun heq =>
      hname.ne_nil (List.append_eq_nil_iff.mp heq).1
    rw [if_neg hne]
    exact pathJoin_slashed root hname fun n hn => h n (List.mem_cons_of_mem name hn)

theorem isServed_inside (h : IsServed path) : InsideRoot root (fsPath root path) := by
  obtain ⟨names, hnames, rfl, hlist⟩ := h
  refine ⟨names, hnames, ?_, fsPath_servedPath root hnames⟩
  rintro rfl
  exact hlist (by simp [servedPath, slashed])

/-- A child of a served path is a path of plain names. -/
theorem child_served (h : IsServed path) (hname : PlainName name) :
    ∃ names, (∀ n ∈ names, PlainName n) ∧
      path.rdropWhile (· = '/') ++ '/' :: name = servedPath names := by
  obtain ⟨names, hnames, rfl, -⟩ := h
  exact ⟨names ++ [name], plainNames_concat hnames hname, child_eq_servedPath hnames name⟩

/-- The parent of a served path other than the root is a path of plain names, or empty for the
root. -/
theorem parentOf_served (h : IsServed path) (hroot : path ≠ ['/']) :
    ∃ names, (∀ n ∈ names, PlainName n) ∧
      (if Ftp.parentOf path = [] then ['/'] else Ftp.parentOf path) = servedPath names := by
  obtain ⟨names, hnames, rfl, -⟩ := h
  induction names using List.reverseRecOn with
  | nil => exact absurd rfl hroot
  | append_singleton names name _ =>
    refine ⟨names, fun n hn => hnames n (List.mem_append_left _ hn), ?_⟩
    rw [servedPath_concat, parentOf_concat names (hnames name (by simp))]
    cases names with
    | nil => rfl
    | cons first rest => simp [servedPath, slashed]

theorem childPath_plain {dir : Text} (h : childPath dir name = .ok path) :
    PlainName name ∧ name ≠ listFileName ∧ path = dir.rdropWhile (· = '/') ++ '/' :: name := by
  unfold childPath at h
  split at h
  · cases h
  next hnot =>
    simp only [not_or] at hnot
    obtain ⟨hnil, hdot, hdots, hlist, hslash⟩ := hnot
    cases h
    exact ⟨⟨hnil, hslash, hdot, hdots⟩, hlist, rfl⟩

/-- A child with a plain name other than the one of the list file is served. -/
theorem childPath_served {dir : Text} (hdir : IsServed dir)
    (h : childPath dir name = .ok path) : IsServed path := by
  obtain ⟨hplain, hlist, rfl⟩ := childPath_plain h
  obtain ⟨names, hnames, hdirEq, -⟩ := hdir
  have hchild := child_eq_servedPath hnames name
  refine ⟨names ++ [name], plainNames_concat hnames hplain, by rw [hdirEq, hchild], fun heq => ?_⟩
  -- the list file has one name, and it is not this one
  rw [hdirEq, rdropWhile_servedPath hnames] at heq
  have hparent := parentOf_concat names hplain
  rw [heq] at hparent
  have hnil : slashed names = [] := hparent.symm
  rw [hnil] at heq
  exact hlist (List.cons.inj heq).2

/-! ## Procedures -/

section Procedures

variable {σ ε α : Type}

/-- Every outcome is possible: a name of a directory entry is plain by its type. -/
def AnyAnswer (_ : FileRequest) (_ : FileAnswer) : Prop := True

/-- What a procedure of the registry keeps. -/
abbrev RegistryKeeps (root : Text) (m : RegistryProcedure ε α) (Q : α → Prop) : Prop :=
  m.Keeps (AllowedRequest root) AnyAnswer (RegistryServed root) Q

/-- What a procedure of the service keeps. -/
abbrev FtpKeeps (root : Text) (m : FtpProcedure α) (Q : α → Prop) : Prop :=
  m.Keeps (AllowedRequest root) AnyAnswer (fun state => RegistryServed root state.registry) Q

theorem register_keeps (h : IsServed path) :
    RegistryKeeps root (FileRegistry.register path) fun _ => True := by
  refine .bind (.request ⟨path, h, rfl⟩) fun answer _ => .ite (fun _ => ?_) fun _ => .fail ()
  refine .bind .read fun registry hregistry => .bind (.write ?_) fun _ _ => .pure trivial
  refine ⟨hregistry.root_eq, fun p hp => ?_, fun entry hentry => ?_⟩
  · exact List.forall_mem_append.mpr ⟨hregistry.paths, List.forall_mem_singleton.mpr h⟩ p hp
  · rcases List.mem_cons.mp hentry with rfl | hentry
    · exact h
    · exact hregistry.byPath entry hentry

/-- `number_of` keeps the form, for a path of plain names. -/
theorem numberOf_keeps (hnames : ∀ n ∈ names, PlainName n)
    (hpath : (if path = [] then ['/'] else path) = servedPath names) :
    RegistryKeeps root (FileRegistry.numberOf path) fun _ => True := by
  unfold FileRegistry.numberOf
  rw [hpath]
  refine .bind .read fun registry hregistry => ?_
  split
  · exact .pure trivial
  refine .ite (fun _ => .fail _) fun hhidden => ?_
  -- the path of the list file has its name as a part
  have hserved : IsServed (servedPath names) := by
    refine ⟨names, hnames, rfl, fun heq => hhidden ?_⟩
    rw [heq]
    decide +kernel
  refine .bind (.request ?_) fun answer _ => .ite (fun _ => ?_) fun _ => .fail _
  · rw [hregistry.root_eq]
    exact isServed_inside hserved
  · exact (register_keeps hserved).onPart (fun _ h => h) fun _ _ _ h => h

theorem numbered_keeps (hnames : ∀ n ∈ names, PlainName n)
    (hpath : (if path = [] then ['/'] else path) = servedPath names) :
    FtpKeeps root (Ftp.numbered path) fun _ => True :=
  (numberOf_keeps hnames hpath).onPart (fun _ h => h) fun _ _ _ h => h

/-- A path of plain names is not empty. -/
theorem normalized_servedPath (names : List Text) :
    (if servedPath names = [] then ['/'] else servedPath names) = servedPath names := by
  refine if_neg ?_
  unfold servedPath
  split
  · exact List.cons_ne_nil _ _
  next hne =>
    obtain ⟨name, rest, rfl⟩ := List.exists_cons_of_ne_nil hne
    exact List.cons_ne_nil _ _

theorem numbered_served (h : IsServed path) :
    FtpKeeps root (Ftp.numbered path) fun _ => True := by
  obtain ⟨names, hnames, rfl, -⟩ := h
  exact numbered_keeps hnames (normalized_servedPath names)

theorem readParam_keeps (ty : RpcType) : FtpKeeps root (Ftp.readParam ty) fun _ => True := by
  refine .bind .read fun state hstate => ?_
  split
  · exact .bind (.write hstate) fun _ _ => .pure trivial
  · exact .fail _
  · exact .spin

theorem readNumber_keeps (ty : RpcType) : FtpKeeps root (Ftp.readNumber ty) fun _ => True := by
  refine .bind (readParam_keeps ty) fun value _ => ?_
  split
  · exact .pure trivial
  · exact .pure trivial
  · exact .fail _

theorem readString_keeps : FtpKeeps root Ftp.readString fun _ => True := by
  refine .bind (readParam_keeps .string) fun value _ => ?_
  split
  · exact .pure trivial
  · exact .fail _

theorem asks_keeps {request : FileRequest} (h : AllowedRequest root request) :
    FtpKeeps root (Ftp.asks request) fun _ => True :=
  .bind (.request h) fun _ _ => .pure trivial

theorem posix_keeps (errno : FtpErrno) {Q : α → Prop} : FtpKeeps root (Ftp.posix errno) Q := .fail _

theorem sortedDirNames_keeps {file : Text} {error : ServiceError} (h : InsideRoot root file) :
    FtpKeeps root (sortedDirNames file error) fun _ => True :=
  .bind (.request h) fun _ _ => .ite (fun _ => .pure trivial) fun _ => .fail _

theorem child_keeps (h : IsServed path) (name : Text) :
    FtpKeeps root (Ftp.child path name) IsServed := by
  unfold Ftp.child
  split
  next hchild => exact .pure (childPath_served h hchild)
  next => exact posix_keeps _

end Procedures

/-! ## The functions -/

section Functions

variable {file : Text}

section File

variable (h : InsideRoot root file)
include h

theorem kind_keeps : FtpKeeps root (Ftp.kind file) fun _ => True := by
  refine .bind (asks_keeps h) fun _ _ => .ite (fun _ => .pure trivial) fun _ => ?_
  exact .bind (asks_keeps h) fun _ _ => .ite (fun _ => .pure trivial) fun _ => .pure trivial

theorem size_keeps : FtpKeeps root (Ftp.size file) fun _ => True := by
  refine .bind (asks_keeps h) fun _ _ => .ite (fun _ => ?_) fun _ => ?_
  · exact .bind (sortedDirNames_keeps h) fun _ _ => .pure trivial
  · exact .bind (.request h) fun _ _ => .ite (fun _ => .pure trivial) fun _ => posix_keeps _

theorem readFile_keeps : FtpKeeps root (Ftp.readFile file) fun _ => True := by
  refine .bind (readNumber_keeps _) fun _ _ => .bind (readNumber_keeps _) fun _ _ =>
    .ite (fun _ => posix_keeps _) fun _ => ?_
  exact .bind (.request h) fun _ _ => .ite (fun _ => .pure trivial) fun _ => posix_keeps _

theorem delete_keeps : FtpKeeps root (Ftp.delete file) fun _ => True := by
  refine .bind (asks_keeps h) fun dir _ => .bind (asks_keeps ?_) fun _ _ => .pure trivial
  split <;> exact h

theorem writeFile_keeps : FtpKeeps root (Ftp.writeFile file) fun _ => True := by
  refine .bind (readNumber_keeps _) fun _ _ => .bind (readParam_keeps _) fun _ _ =>
    .bind (.request ?_) fun _ _ => .ite (fun _ => .pure trivial) fun _ => posix_keeps _
  split <;> exact h

end File

section Path

variable (h : IsServed path)
include h

theorem finishCreate_keeps {created : FileRequest} (hcreated : AllowedRequest root created) :
    FtpKeeps root (Ftp.finishCreate path created) fun _ => True :=
  .bind (asks_keeps hcreated) fun _ _ =>
    .ite (fun _ => .bind (numbered_served h) fun _ _ => .pure trivial) fun _ => posix_keeps _

theorem parent_keeps : FtpKeeps root (Ftp.parent path) fun _ => True := by
  refine .ite (fun _ => posix_keeps _) fun hroot => ?_
  obtain ⟨names, hnames, hparent⟩ := parentOf_served h hroot
  exact .bind (numbered_keeps hnames hparent) fun _ _ => .pure trivial

theorem listNumbers_keeps (entries : List FileName) (numbers : List RpcValue) :
    FtpKeeps root (Ftp.listNumbers path entries numbers) fun _ => True := by
  induction entries generalizing numbers with
  | nil => exact .pure trivial
  | cons name entries ih =>
    exact .bind (child_keeps h name.text) fun _ hchild =>
      .bind (numbered_served hchild) fun _ _ => ih _

theorem list_keeps (hfile : InsideRoot root file) :
    FtpKeeps root (Ftp.list path file) fun _ => True :=
  .bind (sortedDirNames_keeps hfile) fun _ _ =>
    .bind (listNumbers_keeps h _ _) fun _ _ => .pure trivial

theorem nthChild_keeps (hfile : InsideRoot root file) :
    FtpKeeps root (Ftp.nthChild path file) fun _ => True := by
  refine .bind (readNumber_keeps _) fun _ _ => .bind (asks_keeps hfile) fun _ _ =>
    .ite (fun _ => ?_) fun _ => posix_keeps _
  refine .bind (sortedDirNames_keeps hfile) fun _ _ => ?_
  split
  next name _ =>
    obtain ⟨names, hnames, hchild⟩ := child_served h (fileName_plain name)
    rw [hchild]
    exact .bind (numbered_keeps hnames (normalized_servedPath names)) fun _ _ => .pure trivial
  next => exact posix_keeps _

theorem freeChild_keeps (name : Text) :
    FtpKeeps root (Ftp.freeChild path name) fun r => IsServed r.1 ∧ InsideRoot root r.2 := by
  refine .bind (child_keeps h name) fun child hchild => .bind .read fun state hstate => ?_
  have hinside : InsideRoot root (fsPath state.registry.root child) := by
    rw [hstate.root_eq]
    exact isServed_inside hchild
  exact .bind (asks_keeps hinside) fun _ _ =>
    .ite (fun _ => posix_keeps _) fun _ => .pure ⟨hchild, hinside⟩

theorem makeDir_keeps (hfile : InsideRoot root file) :
    FtpKeeps root (Ftp.makeDir path file) fun _ => True :=
  .bind readString_keeps fun name _ => .bind (asks_keeps hfile) fun _ _ =>
    .ite (fun _ => .bind (freeChild_keeps h name) fun _ hr => finishCreate_keeps hr.1 hr.2)
      fun _ => posix_keeps _

theorem createFile_keeps : FtpKeeps root (Ftp.createFile path) fun _ => True :=
  .bind readString_keeps fun name _ =>
    .bind (freeChild_keeps h name) fun _ hr => finishCreate_keeps hr.1 hr.2

end Path

/-- Every function, for a served path and its place. -/
theorem function_keeps (index : UInt8) (h : IsServed path) (hfile : InsideRoot root file) :
    FtpKeeps root (Ftp.function index path file) fun _ => True := by
  have hasks : ∀ request, AllowedRequest root request →
      FtpKeeps root (do pure (Ftp.boolean (← Ftp.asks request))) fun _ => True :=
    fun _ hrequest => .bind (asks_keeps hrequest) fun _ _ => .pure trivial
  unfold Ftp.function
  split
  · exact hasks _ hfile
  · exact parent_keeps h
  · exact kind_keeps hfile
  · exact .pure trivial
  · exact size_keeps hfile
  · exact list_keeps h hfile
  · exact nthChild_keeps h hfile
  · exact hasks _ hfile
  · exact hasks _ hfile
  · exact .pure trivial
  · exact .bind (.request hfile) fun _ _ => .pure trivial
  · exact readFile_keeps hfile
  · exact makeDir_keeps h hfile
  · exact createFile_keeps h
  · exact .bind (readNumber_keeps _) fun _ _ => .bind (asks_keeps hfile) fun _ _ => .pure trivial
  · exact delete_keeps hfile
  · exact .bind (readNumber_keeps _) fun _ _ => .pure trivial
  · exact .bind readString_keeps fun _ _ => .pure trivial
  · exact .bind (readNumber_keeps _) fun _ _ => .bind (.request hfile) fun _ _ =>
      .ite (fun _ => .pure trivial) fun _ => posix_keeps _
  · exact writeFile_keeps hfile
  · exact .fail _

theorem serve_keeps (index : UInt8) : FtpKeeps root (Ftp.serve index) fun _ => True := by
  refine .bind (readNumber_keeps _) fun fileNo _ => .bind .read fun state hstate => ?_
  split
  next path hpath =>
    obtain ⟨i, -, hi⟩ := Option.bind_eq_some_iff.mp hpath
    have hserved := hstate.paths path (List.mem_of_getElem? hi)
    rw [hstate.root_eq]
    exact function_keeps index hserved (isServed_inside hserved)
  next => exact posix_keeps _

end Functions

/-! ## Every sequence of requests -/

/-- **The served directory is not left.**  From a registry of served paths, whatever requests come
and whatever the file system answers: everything that is asked of the file system is about a place
in the directory other than the list file, what is added to the list file is a served path, and the
registry is one of served paths in the end.
SOURCE: rpc/ftp.rs:129-194, 236-442 -/
theorem served_directory_not_left (root : Text) (registry : FileRegistry)
    (requests : List (UInt8 × List UInt8)) (h : RegistryServed root registry) :
    (Ftp.serveAll requests registry).Safe (AllowedRequest root) AnyAnswer
      (RegistryServed root) := by
  induction requests generalizing registry with
  | nil => exact h
  | cons request requests ih =>
    obtain ⟨index, params⟩ := request
    rw [Ftp.serveAll]
    split
    · exact ih registry h
    next m hm =>
      have hserve : m = Ftp.serve index := by
        unfold Ftp.call at hm
        split at hm
        · exact (Option.some.inj hm).symm
        · cases hm
      rw [hserve]
      exact (serve_keeps index _ h).bind fun r hr => ih r.2.registry hr.1

theorem rootRegistry_served : RegistryServed "/srv".toList rootRegistry := by
  have hroot : IsServed ['/'] := ⟨[], by simp, rfl, by decide⟩
  refine ⟨rfl, fun path hpath => ?_, fun entry hentry => ?_⟩
  · rwa [List.mem_singleton.mp hpath]
  · rwa [List.mem_singleton.mp hentry]

def yes : FileAnswer := ⟨true, [], 0, []⟩

def no : FileAnswer := ⟨false, [], 0, []⟩

/-- A file is created in the directory, and gets the number 1. -/
theorem served_directory_not_left_create :
    ∃ registry, (Ftp.serveAll [(31, [0, 0x61, 0])] rootRegistry).Plays AnyAnswer
        [no, yes, yes, yes] registry ∧
      registry.paths = [['/'], ['/', 'a']] ∧ RegistryServed "/srv".toList registry := by
  obtain ⟨registry, hplays, hpaths⟩ : ∃ registry,
      (Ftp.serveAll [(31, [0, 0x61, 0])] rootRegistry).Plays AnyAnswer
        [no, yes, yes, yes] registry ∧ registry.paths = [['/'], ['/', 'a']] := by
    refine ⟨⟨"/srv".toList, [['/'], ['/', 'a']], [(['/', 'a'], 1), (['/'], 0)]⟩, ?_, rfl⟩
    exact ⟨trivial, trivial, trivial, trivial, rfl, rfl⟩
  exact ⟨registry, hplays, hpaths,
    (served_directory_not_left _ rootRegistry _ rootRegistry_served).plays hplays⟩

end Uartbus.Analysis
