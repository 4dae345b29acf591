import ExprScan.Directory
import ExprScan.Proofs.Output

/-! # Files in a directory

  The command reads the file that its argument names. In a directory that is
  known by its files, the names in a path are followed one after the other, and
  each of them stays, goes up or goes down (`Leads`). A walk finds just the places
  that they lead to (`walk_eq_ok_iff`). It never goes above the directory that it
  starts in, so what is read is always one of the files (`exists_file_of_read`),
  and every file is read by the names that lead down to it (`read_path`).
-/

namespace ExprScan

namespace Directory

variable {directory : Directory}

/-! ### Places -/

/-- Whether something is at a place: a file, or a directory that leads to one. -/
def Holds (directory : Directory) (place : List String) : Prop :=
  ∃ file ∈ directory.files, place <+: file.path

/-- The names of a path lead from one place to another, and through directories only. -/
inductive Leads (directory : Directory) : List String → List String → List String → Prop where
  | done (here : List String) : Leads directory here [] here
  /-- The empty name and a single point stay where they are. -/
  | stay {here there more : List String} {name : String} (hfolder : directory.file? here = none)
      (hname : name = "" ∨ name = ".") (hmore : Leads directory here more there) :
      Leads directory here (name :: more) there
  /-- Two points go up, but not out of the directory. -/
  | up {here there more : List String} (hfolder : directory.file? here = none)
      (hinside : here ≠ []) (hmore : Leads directory here.dropLast more there) :
      Leads directory here (".." :: more) there
  /-- Any other name goes down to what has it. -/
  | down {here there more : List String} {name : String} (hfolder : directory.file? here = none)
      (hname : isMove name = false) (hholds : directory.Holds (here ++ [name]))
      (hmore : Leads directory (here ++ [name]) more there) :
      Leads directory here (name :: more) there

theorem file?_eq_some {path : List String} {file : File} (h : directory.file? path = some file) :
    file ∈ directory.files ∧ file.path = path := by
  have hpath := List.find?_some h
  rw [beq_iff_eq] at hpath
  exact ⟨List.mem_of_find?_eq_some h, hpath⟩

theorem file?_eq_none_iff {path : List String} :
    directory.file? path = none ↔ ∀ file ∈ directory.files, file.path ≠ path := by
  unfold file?
  simp only [List.find?_eq_none, beq_iff_eq, ne_eq]

/-- What a walk goes down to is a file or a directory. -/
theorem holds_iff {place : List String} (hplace : place ≠ []) :
    ((directory.file? place).isSome || directory.isFolder place) = true
      ↔ directory.Holds place := by
  rw [Bool.or_eq_true]
  constructor
  · rintro (hfile | hfolder)
    · obtain ⟨file, hfile⟩ := Option.isSome_iff_exists.mp hfile
      obtain ⟨hmem, rfl⟩ := file?_eq_some hfile
      exact ⟨file, hmem, List.prefix_rfl⟩
    · unfold isFolder at hfolder
      rw [List.isEmpty_eq_false_iff.mpr hplace, Bool.false_or, List.any_eq_true] at hfolder
      obtain ⟨file, hmem, hbelow⟩ := hfolder
      rw [Bool.and_eq_true, List.isPrefixOf_iff_prefix] at hbelow
      exact ⟨file, hmem, hbelow.2⟩
  · rintro ⟨file, hmem, hprefix⟩
    by_cases hsame : place = file.path
    · left
      rw [Option.isSome_iff_ne_none, ne_eq, file?_eq_none_iff]
      intro hnone
      exact hnone file hmem hsame.symm
    · right
      unfold isFolder
      rw [Bool.or_eq_true, List.any_eq_true]
      right
      refine ⟨file, hmem, ?_⟩
      rw [Bool.and_eq_true, List.isPrefixOf_iff_prefix, bne_iff_ne]
      exact ⟨hsame, hprefix⟩

/-! ### Walks -/

theorem isMove_eq_false_iff {name : String} :
    isMove name = false ↔ (name ≠ "" ∧ name ≠ ".") ∧ name ≠ ".." := by
  unfold isMove
  simp only [Bool.or_eq_false_iff, beq_eq_false_iff_ne]

section walk

variable {here more : List String} {name : String}

theorem walk_of_file {file : File} (h : directory.file? here = some file) :
    directory.walk here (name :: more) = .error .notDirectory := by
  unfold walk
  rw [h]
  rfl

section folder

variable (hfolder : directory.file? here = none)

include hfolder

theorem walk_stay (hname : name = "" ∨ name = ".") :
    directory.walk here (name :: more) = directory.walk here more := by
  have hstay : (name == "" || name == ".") = true := by
    rwa [Bool.or_eq_true, beq_iff_eq, beq_iff_eq]
  rw [walk, hfolder, hstay]
  rfl

theorem walk_up (hinside : here ≠ []) :
    directory.walk here (".." :: more) = directory.walk here.dropLast more := by
  rw [walk, hfolder, List.isEmpty_eq_false_iff.mpr hinside]
  rfl

theorem walk_out (hout : here = []) :
    directory.walk here (".." :: more) = walkOutside more := by
  rw [walk, hfolder, List.isEmpty_iff.mpr hout]
  rfl

/-- Any other name goes down, or else there is nothing of that name. -/
theorem walk_down (hname : isMove name = false) :
    directory.walk here (name :: more)
      = if (directory.file? (here ++ [name])).isSome || directory.isFolder (here ++ [name])
        then directory.walk (here ++ [name]) more else .error .missing := by
  obtain ⟨hstay, hup⟩ := isMove_eq_false_iff.mp hname
  have hstay : (name == "" || name == ".") = false := by
    rwa [Bool.or_eq_false_iff, beq_eq_false_iff_ne, beq_eq_false_iff_ne]
  rw [walk, hfolder, hstay, beq_eq_false_iff_ne.mpr hup]
  rfl

end folder

end walk

/-- Beyond what is known of there are no files. -/
theorem walkOutside_ne_ok (names : List String) (there : List String) :
    walkOutside names ≠ .ok there := by
  unfold walkOutside
  split <;> exact nofun

/-- A walk ends where the names lead to, and fails if they lead nowhere. -/
theorem walk_eq_ok_iff {here there names : List String} :
    directory.walk here names = .ok there ↔ directory.Leads here names there := by
  constructor
  · intro h
    induction names generalizing here with
    | nil =>
      obtain rfl := Except.ok.inj h
      exact .done here
    | cons name more ih =>
      -- What the name does depends on whether there is a file already, and on the name.
      cases hfolder : directory.file? here with
      | some file =>
        rw [walk_of_file hfolder] at h
        exact nomatch h
      | none =>
        by_cases hmove : isMove name = false
        · rw [walk_down hfolder hmove] at h
          split at h
          · next hholds =>
            have hne : here ++ [name] ≠ [] := List.append_ne_nil_of_right_ne_nil _ (by simp)
            exact .down hfolder hmove ((holds_iff hne).mp hholds) (ih h)
          · exact nomatch h
        · by_cases hstay : name = "" ∨ name = "."
          · rw [walk_stay hfolder hstay] at h
            exact .stay hfolder hstay (ih h)
          · obtain rfl : name = ".." := by
              by_contra hup
              exact hmove (isMove_eq_false_iff.mpr ⟨not_or.mp hstay, hup⟩)
            by_cases hinside : here = []
            · rw [walk_out hfolder hinside] at h
              exact absurd h (walkOutside_ne_ok _ _)
            · rw [walk_up hfolder hinside] at h
              exact .up hfolder hinside (ih h)
  · intro h
    induction h with
    | done here => rfl
    | stay hfolder hname hmore ih => rw [walk_stay hfolder hname, ih]
    | up hfolder hinside hmore ih => rw [walk_up hfolder hinside, ih]
    | @down here _ _ name hfolder hname hholds hmore ih =>
      have hne : here ++ [name] ≠ [] := List.append_ne_nil_of_right_ne_nil _ (by simp)
      rw [walk_down hfolder hname, if_pos ((holds_iff hne).mpr hholds), ih]

/-- Why a path may lead to no file. -/
def pathFailures : List ReadFailure := [.missing, .isDirectory, .notDirectory]

theorem mem_pathFailures_of_walkOutside {names : List String} {failure : ReadFailure}
    (h : walkOutside names = .error failure) : failure ∈ pathFailures := by
  unfold walkOutside at h
  split at h <;> obtain rfl := Except.error.inj h <;> decide

theorem mem_pathFailures_of_walk {here names : List String} {failure : ReadFailure}
    (h : directory.walk here names = .error failure) : failure ∈ pathFailures := by
  fun_induction walk directory here names with
  | case1 => exact nomatch h
  | case2 =>
    obtain rfl := Except.error.inj h
    decide
  | case3 here name more hfolder hstay ih => exact ih h
  | case4 => exact mem_pathFailures_of_walkOutside h
  | case5 here name more hfolder hstay hup hinside ih => exact ih h
  | case6 here name more hfolder hstay hup there hholds ih => exact ih h
  | case7 =>
    obtain rfl := Except.error.inj h
    decide

/-! ### Reading -/

/-- The place that a path leads to is within the directory. -/
theorem leads_of_placeOf {path : String} {place : List String}
    (h : directory.placeOf path = .ok place) : directory.Leads [] (namesOf path) place := by
  unfold placeOf at h
  dsimp only at h
  split at h
  · exact nomatch h
  split at h
  · exact absurd h (walkOutside_ne_ok _ _)
  · exact walk_eq_ok_iff.mp h

theorem mem_pathFailures_of_placeOf {path : String} {failure : ReadFailure}
    (h : directory.placeOf path = .error failure) : failure ∈ pathFailures := by
  unfold placeOf at h
  dsimp only at h
  split at h
  · obtain rfl := Except.error.inj h
    decide
  split at h
  · exact mem_pathFailures_of_walkOutside h
  · exact mem_pathFailures_of_walk h

theorem read_of_placeOf {path : String} {place : List String}
    (h : directory.placeOf path = .ok place) :
    directory.read path = match directory.file? place with
      | some file => .ok file.bytes
      | none => .error .isDirectory := by
  unfold read
  rw [h]
  rfl

/-- What is read is one of the files, and the names in the path lead to it. -/
theorem exists_file_of_read {path : String} {bytes : ByteArray}
    (h : directory.read path = .ok bytes) :
    ∃ file ∈ directory.files, directory.Leads [] (namesOf path) file.path ∧
      file.bytes = bytes := by
  obtain ⟨place, hplace, -⟩ := exists_of_bind_eq_ok h
  rw [read_of_placeOf hplace] at h
  split at h
  · next file hfound =>
    obtain ⟨hfile, rfl⟩ := file?_eq_some hfound
    exact ⟨file, hfile, leads_of_placeOf hplace, Except.ok.inj h⟩
  · exact nomatch h

theorem mem_pathFailures_of_read {path : String} {failure : ReadFailure}
    (h : directory.read path = .error failure) : failure ∈ pathFailures := by
  cases hplace : directory.placeOf path with
  | error other =>
    unfold read at h
    rw [hplace] at h
    obtain rfl := Except.error.inj h
    exact mem_pathFailures_of_placeOf hplace
  | ok place =>
    rw [read_of_placeOf hplace] at h
    split at h
    · exact nomatch h
    · obtain rfl := Except.error.inj h
      decide

/-! ### Files by their own names -/

/-- A name that can be given: it does not stay or go up, and has no slash. -/
structure IsName (name : String) : Prop where
  isMove_eq : isMove name = false
  slash_notMem : '/' ∉ name.toList

/-- A directory as it can be laid out. -/
structure WellFormed (directory : Directory) : Prop where
  path_ne_nil : ∀ file ∈ directory.files, file.path ≠ []
  isName : ∀ file ∈ directory.files, ∀ name ∈ file.path, IsName name
  /-- No two files have the same path, and none is a directory to another one. -/
  apart : ∀ file ∈ directory.files, ∀ other ∈ directory.files,
    file.path <+: other.path → file = other

/-- The path that is made of some names. -/
def pathOf (names : List String) : String := "/".intercalate names

theorem namesOf_pathOf {names : List String} (hne : names ≠ [])
    (hnames : ∀ name ∈ names, IsName name) : namesOf (pathOf names) = names := by
  have hslash : ∀ name ∈ names.map String.toList, '/' ∉ name := by
    intro name hname
    obtain ⟨other, hother, rfl⟩ := List.mem_map.mp hname
    exact (hnames other hother).slash_notMem
  have hsame : String.ofList ∘ String.toList = id := by
    funext name
    exact String.ofList_toList
  unfold namesOf pathOf
  rw [String.toList_intercalate]
  show (List.splitOn '/' (['/'].intercalate (names.map String.toList))).map String.ofList = names
  rw [List.splitOn_intercalate _ hslash (by simpa using hne), List.map_map, hsame, List.map_id]

section wellFormed

variable (hwell : directory.WellFormed) {file : File} (hfile : file ∈ directory.files)

include hwell hfile

theorem file?_path : directory.file? file.path = some file := by
  cases hfound : directory.file? file.path with
  | none => exact absurd rfl (file?_eq_none_iff.mp hfound file hfile)
  | some other =>
    obtain ⟨hother, hpath⟩ := file?_eq_some hfound
    have hsame := hwell.apart other hother file hfile (hpath ▸ List.prefix_rfl)
    rw [hsame]

/-- On the way to a file there are directories. -/
theorem leads_path {here more : List String} (hpath : here ++ more = file.path) :
    directory.Leads here more file.path := by
  induction more generalizing here with
  | nil =>
    rw [List.append_nil] at hpath
    rw [hpath]
    exact .done _
  | cons name more ih =>
    have hsplit : here ++ [name] ++ more = file.path := by
      rw [← hpath, List.append_assoc, List.singleton_append]
    have hfolder : directory.file? here = none := by
      rw [file?_eq_none_iff]
      -- A file on the way would be a directory to this one.
      rintro other hother rfl
      obtain rfl := hwell.apart other hother file hfile ⟨_, hpath⟩
      exact absurd (List.append_right_eq_self.mp hpath) (List.cons_ne_nil _ _)
    have hname : name ∈ file.path := by
      rw [← hpath]
      exact List.mem_append_right _ List.mem_cons_self
    exact .down hfolder (hwell.isName file hfile name hname).isMove_eq ⟨file, hfile, _, hsplit⟩
      (ih hsplit)

/-- A file is read by the names that lead down to it. -/
theorem read_path : directory.read (pathOf file.path) = .ok file.bytes := by
  have hne := hwell.path_ne_nil file hfile
  have hnames := namesOf_pathOf hne (hwell.isName file hfile)
  have hwalk := walk_eq_ok_iff.mpr (leads_path hwell hfile (List.nil_append _))
  obtain ⟨name, more, hpath⟩ := List.exists_cons_of_ne_nil hne
  -- A path is empty or starts at the root only if its first name is empty.
  have hname : name ≠ "" := by
    have hisName := hwell.isName file hfile name (hpath ▸ List.mem_cons_self)
    exact (isMove_eq_false_iff.mp hisName.isMove_eq).1.1
  have hrelative : ¬ (file.path.head? == some "") = true := by
    rw [hpath, List.head?_cons, beq_iff_eq, Option.some.injEq]
    exact hname
  have hnonempty : ¬ (pathOf file.path).isEmpty = true := by
    intro hempty
    rw [String.isEmpty_iff.mp hempty, hpath] at hnames
    exact hname (List.cons.inj hnames).1.symm
  have hplace : directory.placeOf (pathOf file.path) = .ok file.path := by
    unfold placeOf
    rw [hnames, if_neg hnonempty, if_neg hrelative, hwalk]
  rw [read_of_placeOf hplace, file?_path hwell hfile]

example (bytes : ByteArray) :
    (Directory.mk [⟨["notes", "sums.txt"], bytes⟩]).read "notes/sums.txt" = .ok bytes := rfl

end wellFormed

end Directory

/-! ### Running the command in a directory -/

theorem toByteArray_of_decode {bytes : ByteArray} {source : String}
    (h : decode bytes = .ok source) : source.toByteArray = bytes := by
  unfold decode at h
  split at h
  · next text htext =>
    obtain rfl := Except.ok.inj h
    unfold String.fromUTF8? at htext
    split at htext
    · obtain rfl := Option.some.inj htext
      rfl
    · exact nomatch htext
  · exact nomatch h

theorem eq_notText_of_decode {bytes : ByteArray} {failure : ReadFailure}
    (h : decode bytes = .error failure) : failure = .notText := by
  unfold decode at h
  split at h
  · exact nomatch h
  · exact (Except.error.inj h).symm

/-- **Reading in a directory**: whatever name is given, the run scans the text of a file that the
    name leads to from the directory, or it prints nothing and tells why there is none: nothing
    of that name, a directory, a file where a directory should be, or bytes that are no text. -/
theorem run_in_directory (directory : Directory) (name : String) :
    (∃ file ∈ directory.files, ∃ source : String, source.toByteArray = file.bytes ∧
      directory.Leads [] (Directory.namesOf name) file.path ∧
      (Request.ofArguments [name]).run directory.read = scanSource name source) ∨
    ∃ failure ∈ .notText :: Directory.pathFailures,
      (Request.ofArguments [name]).run directory.read = ⟨[], .unreadable name failure⟩ := by
  cases hread : directory.read name with
  | error failure =>
    have hfailure := List.mem_cons_of_mem .notText (Directory.mem_pathFailures_of_read hread)
    exact Or.inr ⟨failure, hfailure, run_of_read_error hread⟩
  | ok bytes =>
    rw [run_of_read hread]
    cases hdecode : decode bytes with
    | error failure =>
      obtain rfl := eq_notText_of_decode hdecode
      exact Or.inr ⟨.notText, List.mem_cons_self, rfl⟩
    | ok source =>
      obtain ⟨file, hfile, hleads, hbytes⟩ := Directory.exists_file_of_read hread
      exact Or.inl ⟨file, hfile, source, (toByteArray_of_decode hdecode).trans hbytes.symm, hleads,
        rfl⟩

/-- A file of text is scanned when it is named by the names that lead down to it. -/
theorem run_pathOf {directory : Directory} (hwell : directory.WellFormed) {file : File}
    (hfile : file ∈ directory.files) {source : String} (hsource : source.toByteArray = file.bytes) :
    (Request.ofArguments [Directory.pathOf file.path]).run directory.read
      = scanSource (Directory.pathOf file.path) source := by
  rw [run_of_read (Directory.read_path hwell hfile), ← hsource, decode_toByteArray]

end ExprScan
