import LoxLexing.CommandLine.Outcome
import LoxLexing.Proofs.Paths

/-!
# All ways to scan agree

A text may be given as code, stand in a file, or be one of many, in a list of sources or under a list of paths.

**The law** (`frontEnds_agree`): in each case it is scanned as it is scanned alone. Under any path, from the root or
from the working directory, a file is scanned as the text whose UTF-8 form it holds, and where there is none, the
failure tells the path as it was given and the reason (`FileTree.Refuses`). A list is scanned place by place: what
comes of a source or a path is decided by that source, or by what stands under that path, and by nothing else in the
list.

Shared out among workers, sources come back in their places for any number of workers, since the workers' runs
put together are the list (`flatten_runsOf`).

**What it does not establish.** The order in which workers get to work is not looked at: each hands over the
results of its own run, and these are put together in the order of the runs.
-/

namespace LoxLexing

/-! ## Lists -/

/-- However many workers there are, they scan each source as it is scanned alone. -/
theorem scanAcross_eq_map (workers : Nat) (sources : List String) :
    scanAcross workers sources = sources.map scan := by
  rw [scanAcross, ← List.map_flatten, flatten_runsOf]

theorem getElem?_scanAcross (workers : Nat) (sources : List String) (place : Nat) :
    (scanAcross workers sources)[place]? = sources[place]?.map scan := by
  rw [scanAcross_eq_map, List.getElem?_map]

theorem getElem?_scanFiles (read : TextReader) (paths : List String) (place : Nat) :
    (scanFiles read paths)[place]? = paths[place]?.map (scanFile read) := by
  rw [scanFiles, List.getElem?_map]

/-! ## Files -/

section

variable {tree : FileTree} {path : String}

theorem scanFile_eq_ok_iff {result : Scan} :
    scanFile tree.readText path = .ok result ↔
      ∃ text : String, tree.Holds path text.toUTF8 ∧ scan text = result := by
  simp only [← FileTree.readText_eq_ok_iff]
  rw [scanFile]
  cases tree.readText path <;> simp

theorem scanFile_eq_error_iff {failure : Failure} :
    scanFile tree.readText path = .error failure ↔
      ∃ cause, tree.Refuses path cause ∧ Failure.unreadable path cause = failure := by
  simp only [← FileTree.readText_eq_error_iff]
  rw [scanFile]
  cases tree.readText path <;> simp

end

/-! ## The law -/

/-- What scanning comes to, for texts in the files of a tree and in lists. -/
structure FrontEndsAgree (tree : FileTree) : Prop where
  /-- A file is scanned as its text. -/
  file : ∀ path result, scanFile tree.readText path = .ok result ↔
    ∃ text : String, tree.Holds path text.toUTF8 ∧ scan text = result
  /-- Where there is no text, the failure tells the path and the reason. -/
  refused : ∀ path failure, scanFile tree.readText path = .error failure ↔
    ∃ cause, tree.Refuses path cause ∧ Failure.unreadable path cause = failure
  /-- A list of sources is scanned place by place. -/
  sources : ∀ workers sources, (scanAcross workers sources).length = sources.length ∧
    ∀ place : Nat, (scanAcross workers sources)[place]? = sources[place]?.map scan
  /-- A list of paths is scanned place by place. -/
  files : ∀ paths, (scanFiles tree.readText paths).length = paths.length ∧
    ∀ place : Nat, (scanFiles tree.readText paths)[place]? = paths[place]?.map (scanFile tree.readText)
  /-- What comes of a source depends on no other one. -/
  sourceAlone : ∀ workers workers' sources sources' (place : Nat), sources[place]? = sources'[place]? →
    (scanAcross workers sources)[place]? = (scanAcross workers' sources')[place]?
  /-- What comes of a path depends on no other path, and on no other file. -/
  pathAlone : ∀ (tree' : FileTree) paths paths' (place : Nat), paths[place]? = paths'[place]? →
    (∀ path ∈ paths[place]?, tree.readText path = tree'.readText path) →
    (scanFiles tree.readText paths)[place]? = (scanFiles tree'.readText paths')[place]?
  /-- A script is reported as its text is when it is given as code. -/
  run : ∀ quiet path (text : String), tree.Holds path text.toUTF8 →
    Run.ofFile tree.readText quiet path = Run.ofCode quiet text
  /-- A script that cannot be read is not reported at all. -/
  unreadableRun : ∀ quiet path cause, tree.Refuses path cause →
    Run.ofFile tree.readText quiet path = { failure := some (.unreadable path cause), printed := {} }

/-- **All ways to scan agree**, for every tree of files. -/
theorem frontEnds_agree (tree : FileTree) : FrontEndsAgree tree where
  file _ _ := scanFile_eq_ok_iff
  refused _ _ := scanFile_eq_error_iff
  sources workers sources := by
    refine ⟨?_, getElem?_scanAcross workers sources⟩
    rw [scanAcross_eq_map, List.length_map]
  files paths := ⟨List.length_map _, getElem?_scanFiles tree.readText paths⟩
  sourceAlone workers workers' sources sources' place same := by
    rw [getElem?_scanAcross, getElem?_scanAcross, same]
  pathAlone tree' paths paths' place same alike := by
    rw [getElem?_scanFiles, getElem?_scanFiles, ← same]
    refine Option.map_congr fun path given => ?_
    rw [scanFile, scanFile, alike path given]
  run quiet path text holds := by
    rw [Run.ofFile, scanFile_eq_ok_iff.mpr ⟨text, holds, rfl⟩]
    rfl
  unreadableRun quiet path cause refuses := by
    rw [Run.ofFile, scanFile_eq_error_iff.mpr ⟨cause, refuses, rfl⟩]

end LoxLexing
