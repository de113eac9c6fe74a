import LoxLexing.Files

/-!
# What stands under a path

A path is a place to begin at and names to follow from there, each out of a directory, and all that the links on the
way say besides (`FileTree.Leads`). So it comes to one of these ends: the bytes of a file, a directory, a file with
names left to follow, nothing, one link too many, or something that the operating system does not give.

**The law** (`FileTree.readText_eq_ok_iff`, `FileTree.readText_eq_error_iff`): a text is read where a path ends at its
UTF-8 form, and each other end is refused in its own way. So is a file whose bytes are the UTF-8 form of no text.

Reading from anywhere on the way gives what reading from the first place gives (`FileTree.readFrom_of_leads`), so that
only ends need to be looked at. And every path comes to an end (`FileTree.exists_leads`): names are used up by
directories, and links by their limit. The path from the root to a file comes to that file (`FileTree.holds_path`).
-/

namespace LoxLexing

/-! ## Text -/

/-- Bytes are read as the text whose UTF-8 form they are. -/
theorem decodeText_eq_ok_iff {bytes : ByteArray} {text : String} :
    decodeText bytes = .ok text ↔ text.toUTF8 = bytes := by
  rw [decodeText, String.fromUTF8?]
  constructor
  · intro read
    split at read
    · rename_i text' decoded
      split at decoded
      · cases Option.some.inj decoded
        cases Except.ok.inj read
        rfl
      · cases decoded
    · cases read
  · rintro rfl
    have valid : text.toUTF8.IsValidUTF8 := text.isValidUTF8
    rw [dif_pos valid]
    rfl

/-- Bytes that are the UTF-8 form of no text are not read. -/
theorem decodeText_of_forall_ne {bytes : ByteArray} (noText : ∀ text : String, text.toUTF8 ≠ bytes) :
    decodeText bytes = .error .notText := by
  cases read : decodeText bytes with
  | ok text => exact absurd (decodeText_eq_ok_iff.mp read) (noText text)
  | error cause =>
    rw [decodeText] at read
    split at read
    · cases read
    · exact read.symm

/-! ## Names -/

/-- The path that leads to a place from the root. -/
def Place.path (place : Place) : String :=
  "/" ++ "/".intercalate place

/-- Whether a name leads from a directory to what is in it under this name. -/
structure Place.IsPlain (name : String) : Prop where
  ne_empty : name ≠ ""
  ne_dot : name ≠ "."
  ne_dots : name ≠ ".."
  noSlash : '/' ∉ name.toList

theorem Place.IsPlain.toward_eq {place : Place} {name : String} (plain : IsPlain name) :
    place.toward name = place ++ [name] := by
  rw [Place.toward, if_neg (not_or.mpr ⟨plain.ne_empty, plain.ne_dot⟩), if_neg plain.ne_dots]

/-- Only the empty path begins nowhere. -/
theorem pathNames?_eq_none_iff {here : Place} {path : String} : pathNames? here path = none ↔ path = "" := by
  rw [pathNames?]
  split
  · rename_i empty
    exact iff_of_true rfl empty
  · rename_i notEmpty
    refine iff_of_false ?_ notEmpty
    split <;> exact Option.some_ne_none _

/-- A path from the root is cut at its slashes into the names that lead there. -/
theorem pathNames?_path {here place : Place} (notRoot : place ≠ []) (plain : ∀ name ∈ place, Place.IsPlain name) :
    pathNames? here place.path = some ([], place) := by
  have path_eq : place.path.toList = '/' :: ['/'].intercalate (place.map String.toList) := by
    rw [Place.path, String.toList_append, String.toList_intercalate]
    rfl
  have notEmpty : place.path ≠ "" := by
    intro empty
    rw [empty] at path_eq
    cases path_eq
  have splits : (['/'].intercalate (place.map String.toList)).splitOn '/' = place.map String.toList := by
    refine List.splitOn_intercalate '/' ?_ fun nil => notRoot (List.map_eq_nil_iff.mp nil)
    intro letters mem
    obtain ⟨name, given, rfl⟩ := List.mem_map.mp mem
    exact (plain name given).noSlash
  have cut : place.path.toList.splitOn '/' = [] :: place.map String.toList := by
    rw [path_eq, List.splitOn, List.splitOnP_cons_eq_if_modifyHead, if_pos (by decide), ← List.splitOn, splits]
  rw [pathNames?, if_neg notEmpty, cut]
  simp

/-! ## Following names -/

/-- A path that is being followed. -/
structure Pursuit where
  /-- The place that was reached. -/
  place : Place
  /-- The names that are left to follow. -/
  names : List String
  /-- How many links may still be followed. -/
  links : Nat

namespace FileTree

variable {tree : FileTree} {place start : Place} {name path target message : String} {names more : List String}
  {links : Nat} {first goal : Pursuit} {bytes : ByteArray} {cause : ReadFailure}

/-- Whether following a path comes from one point of it to another. -/
inductive Leads (tree : FileTree) : Pursuit → Pursuit → Prop where
  | here (goal : Pursuit) : Leads tree goal goal
  /-- A name is followed out of a directory. -/
  | through {place : Place} {name : String} {names : List String} {links : Nat} {goal : Pursuit}
      (directory : tree.entryAt? place = some .directory) (later : Leads tree ⟨place.toward name, names, links⟩ goal) :
      Leads tree ⟨place, name :: names, links⟩ goal
  /-- A link is followed from the directory that it is in, and what was left is followed behind it. -/
  | along {place start : Place} {names more : List String} {links : Nat} {target : String} {goal : Pursuit}
      (link : tree.entryAt? place = some (.link target))
      (begins : pathNames? place.dropLast target = some (start, more))
      (later : Leads tree ⟨start, more ++ names, links⟩ goal) : Leads tree ⟨place, names, links + 1⟩ goal

/-- Whether a path comes to some point. -/
def Reaches (tree : FileTree) (path : String) (goal : Pursuit) : Prop :=
  '\x00' ∉ path.toList ∧ path.utf8ByteSize ≤ tree.pathLimit ∧
    ∃ start names, pathNames? tree.workingDirectory path = some (start, names) ∧
      tree.Leads ⟨start, names, tree.linkLimit⟩ goal

/-- Whether a path ends at a file with these bytes. -/
def Holds (tree : FileTree) (path : String) (bytes : ByteArray) : Prop :=
  ∃ goal, tree.Reaches path goal ∧ goal.names = [] ∧ tree.entryAt? goal.place = some (.file bytes)

/-- Whether a path ends at a directory. -/
def IsDirectory (tree : FileTree) (path : String) : Prop :=
  ∃ goal, tree.Reaches path goal ∧ goal.names = [] ∧ tree.entryAt? goal.place = some .directory

/-- Whether a path goes on below a file. -/
def IsBelowFile (tree : FileTree) (path : String) : Prop :=
  ∃ goal bytes, tree.Reaches path goal ∧ goal.names ≠ [] ∧ tree.entryAt? goal.place = some (.file bytes)

/-- Whether a path, or a link on its way, says nothing, or comes to where nothing stands. -/
def IsMissing (tree : FileTree) (path : String) : Prop :=
  path = "" ∨ ∃ goal, tree.Reaches path goal ∧
    (tree.entryAt? goal.place = none ∨ goal.links ≠ 0 ∧ tree.entryAt? goal.place = some (.link ""))

/-- Whether there is one link too many on the way. -/
def IsEntangled (tree : FileTree) (path : String) : Prop :=
  ∃ goal target, tree.Reaches path goal ∧ goal.links = 0 ∧ tree.entryAt? goal.place = some (.link target)

/-- Whether a path comes to something that the operating system does not give. -/
def IsWithheld (tree : FileTree) (path message : String) : Prop :=
  ∃ goal, tree.Reaches path goal ∧ tree.entryAt? goal.place = some (.refused message)

/-- Why there is no text under a path. -/
inductive Refuses (tree : FileTree) (path : String) : ReadFailure → Prop where
  | missing (missing : tree.IsMissing path) : Refuses tree path .notFound
  | directory (directory : tree.IsDirectory path) : Refuses tree path .isADirectory
  | belowFile (below : tree.IsBelowFile path) : Refuses tree path .notADirectory
  | entangled (entangled : tree.IsEntangled path) : Refuses tree path .tooManyLinks
  | withheld {message : String} (withheld : tree.IsWithheld path message) : Refuses tree path (.system message)
  | nul (nul : '\x00' ∈ path.toList) : Refuses tree path .nulInPath
  | tooLong (noNul : '\x00' ∉ path.toList) (tooLong : tree.pathLimit < path.utf8ByteSize) :
      Refuses tree path .pathTooLong
  | notText {bytes : ByteArray} (holds : tree.Holds path bytes)
      (noText : ∀ text : String, text.toUTF8 ≠ bytes) : Refuses tree path .notText

/-! ## Reading on the way -/

/-- Names are followed as far as directories go. -/
theorem advance_of_stops (stops : names ≠ [] → tree.entryAt? place ≠ some .directory) :
    tree.advance place names = (place, names) := by
  cases names with
  | nil => rfl
  | cons name names =>
    have noDirectory := stops (List.cons_ne_nil _ _)
    rw [advance]
    split
    · rename_i directory
      exact absurd directory noDirectory
    · rfl

/-- Names are left only where no directory stands. -/
theorem ne_directory_of_stands {entry : Option FileEntry} (stands : tree.entryAt? place = entry)
    (other : entry ≠ some .directory) : names ≠ [] → tree.entryAt? place ≠ some .directory :=
  fun _ => stands ▸ other

/-- Where no name can be followed, what stands there decides. -/
theorem readFrom_of_stops (stops : names ≠ [] → tree.entryAt? place ≠ some .directory) :
    tree.readFrom links place names
      = match tree.entryAt? place with
        | none => .error .notFound
        | some (.refused message) => .error (.system message)
        | some (.file bytes) => if names = [] then .ok bytes else .error .notADirectory
        | some .directory => .error .isADirectory
        | some (.link target) =>
          match links with
          | 0 => .error .tooManyLinks
          | links + 1 =>
            match pathNames? place.dropLast target with
            | none => .error .notFound
            | some (start, more) => tree.readFrom links start (more ++ names) := by
  rewrite [readFrom.eq_def, advance_of_stops stops]
  rfl

theorem readFrom_through (directory : tree.entryAt? place = some .directory) :
    tree.readFrom links place (name :: names) = tree.readFrom links (place.toward name) names := by
  have advances : tree.advance place (name :: names) = tree.advance (place.toward name) names := by
    rw [advance, directory]
  rw [readFrom.eq_def, advances, ← readFrom.eq_def]

theorem readFrom_along (link : tree.entryAt? place = some (.link target))
    (begins : pathNames? place.dropLast target = some (start, more)) :
    tree.readFrom (links + 1) place names = tree.readFrom links start (more ++ names) := by
  rw [readFrom_of_stops (ne_directory_of_stands link nofun), link]
  simp only [begins]

/-- **On the way of a path nothing changes** of what is read. -/
theorem readFrom_of_leads (leads : tree.Leads first goal) :
    tree.readFrom first.links first.place first.names = tree.readFrom goal.links goal.place goal.names := by
  induction leads with
  | here goal => rfl
  | through directory _ ih => exact (readFrom_through directory).trans ih
  | along link begins _ ih => exact (readFrom_along link begins).trans ih

theorem read_of_reaches (reaches : tree.Reaches path goal) :
    tree.read path = tree.readFrom goal.links goal.place goal.names := by
  obtain ⟨noNul, notTooLong, start, names, begins, leads⟩ := reaches
  rw [read, if_neg noNul, if_neg (Nat.not_lt.mpr notTooLong), begins]
  exact readFrom_of_leads leads

/-! ## What reading gives -/

theorem read_of_holds (holds : tree.Holds path bytes) : tree.read path = .ok bytes := by
  obtain ⟨goal, reaches, allFollowed, stands⟩ := holds
  rw [read_of_reaches reaches, readFrom_of_stops (absurd allFollowed), stands]
  exact if_pos allFollowed

theorem read_of_isDirectory (directory : tree.IsDirectory path) : tree.read path = .error .isADirectory := by
  obtain ⟨goal, reaches, allFollowed, stands⟩ := directory
  rw [read_of_reaches reaches, readFrom_of_stops (absurd allFollowed), stands]

theorem read_of_isBelowFile (below : tree.IsBelowFile path) : tree.read path = .error .notADirectory := by
  obtain ⟨goal, bytes, reaches, someLeft, stands⟩ := below
  rw [read_of_reaches reaches, readFrom_of_stops (ne_directory_of_stands stands nofun), stands]
  exact if_neg someLeft

theorem read_of_isMissing (missing : tree.IsMissing path) : tree.read path = .error .notFound := by
  rcases missing with rfl | ⟨goal, reaches, stands | ⟨more, stands⟩⟩
  · have notTooLong : ¬ tree.pathLimit < "".utf8ByteSize := Nat.not_lt_zero _
    rw [read, if_neg (by decide), if_neg notTooLong]
    rfl
  · rw [read_of_reaches reaches, readFrom_of_stops (ne_directory_of_stands stands nofun), stands]
  · obtain ⟨links, links_eq⟩ := Nat.exists_eq_succ_of_ne_zero more
    rw [read_of_reaches reaches, readFrom_of_stops (ne_directory_of_stands stands nofun), stands, links_eq]
    rfl

theorem read_of_isEntangled (entangled : tree.IsEntangled path) : tree.read path = .error .tooManyLinks := by
  obtain ⟨goal, target, reaches, noMore, stands⟩ := entangled
  rw [read_of_reaches reaches, readFrom_of_stops (ne_directory_of_stands stands nofun), stands, noMore]

theorem read_of_isWithheld (withheld : tree.IsWithheld path message) :
    tree.read path = .error (.system message) := by
  obtain ⟨goal, reaches, stands⟩ := withheld
  rw [read_of_reaches reaches, readFrom_of_stops (ne_directory_of_stands stands nofun), stands]

theorem readText_of_read (given : tree.read path = .ok bytes) : tree.readText path = decodeText bytes := by
  rw [readText, given]
  rfl

theorem readText_of_refuses (refuses : tree.Refuses path cause) : tree.readText path = .error cause := by
  have passedOn {cause : ReadFailure} (refused : tree.read path = .error cause) :
      tree.readText path = .error cause := by
    rw [readText, refused]
    rfl
  cases refuses with
  | missing missing => exact passedOn (read_of_isMissing missing)
  | directory directory => exact passedOn (read_of_isDirectory directory)
  | belowFile below => exact passedOn (read_of_isBelowFile below)
  | entangled entangled => exact passedOn (read_of_isEntangled entangled)
  | withheld withheld => exact passedOn (read_of_isWithheld withheld)
  | nul nul => exact passedOn (if_pos nul)
  | tooLong noNul tooLong => exact passedOn ((if_neg noNul).trans (if_pos tooLong))
  | notText holds noText =>
    rw [readText_of_read (read_of_holds holds), decodeText_of_forall_ne noText]

theorem readText_of_holds {text : String} (holds : tree.Holds path text.toUTF8) : tree.readText path = .ok text := by
  rw [readText_of_read (read_of_holds holds)]
  exact decodeText_eq_ok_iff.mpr rfl

/-! ## Ends -/

/-- Whether a path that is being followed cannot be followed any more. -/
structure IsEnd (tree : FileTree) (goal : Pursuit) : Prop where
  directory : goal.names ≠ [] → tree.entryAt? goal.place ≠ some .directory
  link : ∀ target, tree.entryAt? goal.place = some (.link target) → goal.links = 0 ∨ target = ""

theorem isEnd_of_stands {goal : Pursuit} {entry : Option FileEntry} (stands : tree.entryAt? goal.place = entry)
    (noDirectory : entry ≠ some .directory) (noLink : ∀ target, entry ≠ some (.link target)) : tree.IsEnd goal := by
  subst stands
  exact ⟨fun _ => noDirectory, fun target link => absurd link (noLink target)⟩

/-- **Every path comes to an end.** A directory uses up a name, and a link one of those that may be followed. -/
theorem exists_leads (tree : FileTree) (place : Place) (names : List String) (links : Nat) :
    ∃ goal, tree.Leads ⟨place, names, links⟩ goal ∧ tree.IsEnd goal := by
  match stands : tree.entryAt? place, names, links with
  | some .directory, [], _ =>
    refine ⟨_, .here _, absurd rfl, ?_⟩
    intro target link
    rw [stands] at link
    cases link
  | some .directory, name :: names, links =>
    obtain ⟨goal, leads, ends⟩ := exists_leads tree (place.toward name) names links
    exact ⟨goal, .through stands leads, ends⟩
  | some (.link target), names, 0 =>
    exact ⟨_, .here _, ne_directory_of_stands stands nofun, fun _ _ => .inl rfl⟩
  | some (.link target), names, links + 1 =>
    match begins : pathNames? place.dropLast target with
    | some (start, more) =>
      obtain ⟨goal, leads, ends⟩ := exists_leads tree start (more ++ names) links
      exact ⟨goal, .along stands begins leads, ends⟩
    | none =>
      refine ⟨_, .here _, ne_directory_of_stands stands nofun, ?_⟩
      intro target' link
      rw [stands] at link
      cases link
      exact .inr (pathNames?_eq_none_iff.mp begins)
  | some (.file bytes), names, links => exact ⟨_, .here _, isEnd_of_stands stands nofun nofun⟩
  | some (.refused message), names, links => exact ⟨_, .here _, isEnd_of_stands stands nofun nofun⟩
  | none, names, links => exact ⟨_, .here _, isEnd_of_stands stands nofun nofun⟩
termination_by (links, names.length)

/-- At an end, a file has been reached, or there is a reason why not. -/
theorem holds_or_refuses_of_isEnd (reaches : tree.Reaches path goal) (ends : tree.IsEnd goal) :
    (∃ bytes, tree.Holds path bytes) ∨ ∃ cause, tree.Refuses path cause := by
  match stands : tree.entryAt? goal.place with
  | none => exact .inr ⟨_, .missing (.inr ⟨goal, reaches, .inl stands⟩)⟩
  | some (.refused message) => exact .inr ⟨_, .withheld ⟨goal, reaches, stands⟩⟩
  | some (.file bytes) =>
    by_cases allFollowed : goal.names = []
    · exact .inl ⟨bytes, goal, reaches, allFollowed, stands⟩
    · exact .inr ⟨_, .belowFile ⟨goal, bytes, reaches, allFollowed, stands⟩⟩
  | some .directory =>
    have allFollowed : goal.names = [] := Classical.not_not.mp fun someLeft => ends.directory someLeft stands
    exact .inr ⟨_, .directory ⟨goal, reaches, allFollowed, stands⟩⟩
  | some (.link target) =>
    by_cases noMore : goal.links = 0
    · exact .inr ⟨_, .entangled ⟨goal, target, reaches, noMore, stands⟩⟩
    · obtain rfl := (ends.link target stands).resolve_left noMore
      exact .inr ⟨_, .missing (.inr ⟨goal, reaches, .inr ⟨noMore, stands⟩⟩)⟩

/-- A path has a text under it, or there is a reason why not. -/
theorem holds_or_refuses (tree : FileTree) (path : String) :
    (∃ text : String, tree.Holds path text.toUTF8) ∨ ∃ cause, tree.Refuses path cause := by
  by_cases nul : '\x00' ∈ path.toList
  · exact .inr ⟨_, .nul nul⟩
  by_cases tooLong : tree.pathLimit < path.utf8ByteSize
  · exact .inr ⟨_, .tooLong nul tooLong⟩
  match begins : pathNames? tree.workingDirectory path with
  | none => exact .inr ⟨_, .missing (.inl (pathNames?_eq_none_iff.mp begins))⟩
  | some (start, names) =>
    obtain ⟨goal, leads, ends⟩ := tree.exists_leads start names tree.linkLimit
    have reaches : tree.Reaches path goal := ⟨nul, Nat.not_lt.mp tooLong, start, names, begins, leads⟩
    rcases holds_or_refuses_of_isEnd reaches ends with ⟨bytes, holds⟩ | refuses
    · by_cases isText : ∃ text : String, text.toUTF8 = bytes
      · obtain ⟨text, rfl⟩ := isText
        exact .inl ⟨text, holds⟩
      · exact .inr ⟨_, .notText holds (not_exists.mp isText)⟩
    · exact .inr refuses

/-- **A text is read if it is what stands under the path**, and only then. -/
theorem readText_eq_ok_iff {text : String} :
    tree.readText path = .ok text ↔ tree.Holds path text.toUTF8 := by
  refine ⟨fun read => ?_, readText_of_holds⟩
  rcases tree.holds_or_refuses path with ⟨text', holds⟩ | ⟨cause, refuses⟩
  · rw [readText_of_holds holds] at read
    cases read
    exact holds
  · rw [readText_of_refuses refuses] at read
    cases read

/-- **Reading fails for the reason that there is**, and only then. -/
theorem readText_eq_error_iff {cause : ReadFailure} :
    tree.readText path = .error cause ↔ tree.Refuses path cause := by
  refine ⟨fun read => ?_, readText_of_refuses⟩
  rcases tree.holds_or_refuses path with ⟨text, holds⟩ | ⟨cause', refuses⟩
  · rw [readText_of_holds holds] at read
    cases read
  · rw [readText_of_refuses refuses] at read
    cases read
    exact refuses

/-! ## Paths from the root -/

/-- Plain names lead on through directories. -/
theorem leads_of_directories (place : Place) (plain : ∀ name ∈ names, Place.IsPlain name)
    (directories : ∀ front, front <+: names → front ≠ names → tree.entryAt? (place ++ front) = some .directory) :
    tree.Leads ⟨place, names, links⟩ ⟨place ++ names, [], links⟩ := by
  induction names generalizing place with
  | nil =>
    rw [List.append_nil]
    exact .here _
  | cons name names ih =>
    have here := directories [] List.nil_prefix (List.cons_ne_nil name names).symm
    rw [List.append_nil] at here
    have later := ih (place ++ [name]) (fun other mem => plain other (.tail _ mem)) fun front before shorter => by
      rw [List.append_assoc]
      exact directories (name :: front) (List.cons_prefix_cons.mpr ⟨rfl, before⟩)
        fun same => shorter (List.cons.inj same).2
    rw [List.append_assoc, List.singleton_append] at later
    refine .through here ?_
    rw [(plain name (.head _)).toward_eq]
    exact later

/-- **A file stands under the path from the root to it**, wherever paths are followed from otherwise. -/
theorem holds_path (notRoot : place ≠ []) (plain : ∀ name ∈ place, Place.IsPlain name)
    (noNul : '\x00' ∉ place.path.toList) (notTooLong : place.path.utf8ByteSize ≤ tree.pathLimit)
    (directories : ∀ front, front <+: place → front ≠ place → tree.entryAt? front = some .directory)
    (stands : tree.entryAt? place = some (.file bytes)) : tree.Holds place.path bytes := by
  have leads : tree.Leads ⟨[], place, tree.linkLimit⟩ ⟨place, [], tree.linkLimit⟩ :=
    leads_of_directories [] plain directories
  exact ⟨_, ⟨noNul, notTooLong, _, _, pathNames?_path notRoot plain, leads⟩, rfl, stands⟩

/-- A path from the root, one that goes on above the root, and one over a link. -/
example :
    let tree := FileTree.ofPaths [("/etc/a.lox", .file "1;".toUTF8), ("b", .link "../etc")]
    ["/etc/a.lox", "../../etc/a.lox", "b/a.lox"].map (fun path => (tree.readText path).toOption)
      = [some "1;", some "1;", some "1;"] := by
  decide +kernel

end FileTree

end LoxLexing
