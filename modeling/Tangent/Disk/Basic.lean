import Tangent.Disk.Path
import Tangent.Error.Basic

/-!
# Disks

A disk is a tree of folders and files. A checked disk has the folders that were made, refuses to look
for something in a file, and limits the lengths of names and paths. A free disk makes the folders
that it needs, and a disk that is only for reading refuses every change.
-/

namespace Tangent

inductive Entry
  | folder
  | file (content : String)

inductive Medium
  | checked | free | readOnly
deriving DecidableEq

structure Disk where
  medium : Medium := .checked
  entries : List (Path × Entry) := []

namespace Disk

/-- The folders that every checked disk has below the root. -/
def systemFolders : List (List String) :=
  [["bin"], ["boot"], ["dev"], ["etc"], ["home"], ["lib"], ["media"], ["mnt"], ["opt"], ["root"], ["run"],
    ["sbin"], ["srv"], ["tmp"], ["usr"], ["usr", "bin"], ["usr", "lib"], ["usr", "local"],
    ["usr", "local", "bin"], ["usr", "sbin"], ["usr", "share"], ["var"], ["var", "tmp"]]

/-- What every checked disk has below the root: folders, and files of which only the names matter. -/
def systemEntry? (parts : List String) : Option Entry :=
  if systemFolders.contains parts then some .folder
  else if [["dev", "null"], ["bin", "sh"], ["bin", "true"], ["bin", "false"], ["etc", "passwd"]].contains
      parts then some (.file "")
  else none

/-- What stands at a path. The working directory, the root and all above them are folders. -/
def entry? (d : Disk) (p : Path) : Option Entry :=
  if p.parts.all (· == Path.above) then some .folder
  else match d.entries.find? (·.1 = p) with
    | some (_, e) => some e
    | none => if d.medium = .checked && p.absolute then systemEntry? p.parts else none

/-- Put an entry at a path, in place of what stood there. -/
def put (d : Disk) (p : Path) (e : Entry) : Disk :=
  { d with entries := d.entries.filter (·.1 ≠ p) ++ [(p, e)] }

/-- What is wrong with a name that is looked for in a folder. -/
def nameTrouble? (name : String) : Option Trouble :=
  if name.contains '\x00' then some .invalid
  else if 255 < Text.byteCount name then some .tooLong
  else none

/-- Follow names from folder to folder. The last name may be of something new. -/
def walk (d : Disk) : Path → List String → Except Trouble Path
  | p, [] => .ok p
  | p, name :: rest =>
    match d.entry? p with
    | some .folder =>
      match nameTrouble? name with
      | some trouble => .error trouble
      | none => d.walk (p.step name) rest
    | some (.file _) => .error .notDirectory
    | none => .error .absent

/-- Where the text of a path leads to. -/
def locate (d : Disk) (path : String) : Except Trouble Path :=
  if path = "" then .error .absent
  else if d.medium ≠ .checked then .ok (Path.ofText path)
  else if path.contains '\x00' then .error .invalid
  else if 4096 ≤ Text.byteCount path then .error .tooLong
  else d.walk (Path.start path) (Path.names path)

/-- What the text of a path leads to. -/
def look (d : Disk) (path : String) : Except Trouble Entry := do
  match d.entry? (← d.locate path) with
  | some e => return e
  | none => .error .absent

/-- The failure of an action on a path. -/
def failed {α : Type} (action path : String) (trouble : Trouble) : Result α :=
  .issue (.badPath action path trouble)

/-- Open a file or a folder for reading. -/
def openPath (d : Disk) (path : String) : Result Entry :=
  match d.look path with
  | .ok e => .ok e
  | .error trouble => failed "open" path trouble

/-- Write a file, new or not. -/
def write (d : Disk) (path content : String) : Result Disk :=
  if d.medium = .readOnly then .issue .notPermitted
  else match d.locate path with
    | .error trouble => failed "open" path trouble
    | .ok p => match d.entry? p with
      | some .folder => failed "open" path .isDirectory
      | _ => .ok (d.put p (.file content))

/-! ## Folders -/

/-- The text of the folder above the last name of a path, both given backwards. Slashes at the end
of the path do not count, one slash before the name is left out, and nothing is above a name at
the front. -/
def textAbove? (reversed : List Char) : Option (List Char) :=
  match (reversed.dropWhile (· == '/')).dropWhile (· != '/') with
  | _ :: c :: rest => some (c :: rest)
  | _ => none

theorem length_textAbove? {cs above : List Char} (h : textAbove? cs = some above) :
    above.length < cs.length := by
  unfold textAbove? at h
  have h₁ := (List.dropWhile_sublist (l := cs) (· == '/')).length_le
  have h₂ := (List.dropWhile_sublist (l := cs.dropWhile (· == '/')) (· != '/')).length_le
  split at h
  · rename_i c d rest heq
    cases h
    rw [heq] at h₂
    simp only [List.length_cons] at h₂ ⊢
    omega
  · cases h

/-- Make one folder. It may be there already. -/
def makeFolder (d : Disk) (path : String) : Result Disk :=
  match d.locate path with
  | .error .notDirectory => failed "mkdir" path .present
  | .error trouble => failed "mkdir" path trouble
  | .ok p => match d.entry? p with
    | some .folder => .ok d
    | some (.file _) => failed "mkdir" path .present
    | none => .ok (d.put p .folder)

/-- Make a folder whose path is given backwards, and those that lead to it. -/
def makeLeading (d : Disk) (reversed : List Char) : Result Disk :=
  let path := String.ofList reversed.reverse
  match d.look path with
  | .ok .folder => .ok d
  | .ok (.file _) => failed "mkdir" path .notDirectory
  | .error _ =>
    match _h : textAbove? reversed with
    | none => d.makeFolder path
    | some above => do
      (← d.makeLeading above).makeFolder path
termination_by reversed.length
decreasing_by exact length_textAbove? _h

/-- Make a folder and those that lead to it. -/
def makeFolders (d : Disk) (path : String) : Result Disk :=
  match d.medium with
  | .readOnly => .issue .notPermitted
  | .free => .ok d
  | .checked => d.makeLeading path.toList.reverse

/-- Take away what stands at a path, and all that it holds. -/
def erase (d : Disk) (p : Path) : Disk :=
  { d with entries := d.entries.filter fun (q, _) => !p.contains q }

/-- Remove a file, or a folder with all that it holds. What is not there need not be removed. If the
path cannot be followed, the last name is looked for in the folder above. -/
def remove (d : Disk) (path : String) : Result Disk :=
  if d.medium = .readOnly then .issue .notPermitted
  else match d.locate path with
    | .ok p => .ok (d.erase p)
    | .error .absent => .ok d
    | .error _ =>
      let above := (Path.ofText path).parent
      let name := Path.base path
      let refuse (trouble : Trouble) := failed "unlinkat" (above.text ++ "/" ++ name) trouble
      match d.look above.text with
      | .error .absent => .ok d
      | .error trouble => failed "open" above.text trouble
      | .ok (.file _) => refuse .notDirectory
      | .ok .folder => match nameTrouble? name with
        | some trouble => refuse trouble
        | none => .ok (d.erase (above.step name))

/-- The names in a folder, in order. -/
def names (d : Disk) (folder : Path) : List String :=
  let inside := d.entries.filterMap fun (p, _) =>
    if p.parent = folder && p ≠ folder then p.parts.getLast? else none
  inside.mergeSort (· ≤ ·)

/-! ## Files -/

/-- The files by the texts of their paths. -/
def files (d : Disk) : List (String × String) :=
  d.entries.filterMap fun
    | (p, .file content) => some (p.text, content)
    | (_, .folder) => none

/-- The disk with all its names and contents changed in one way. -/
def mapTexts (f : String → String) (d : Disk) : Disk :=
  { d with entries := d.entries.map fun (p, e) =>
    ({ p with parts := p.parts.map f }, match e with
      | .folder => .folder
      | .file content => .file (f content)) }

/-- The content of a file. -/
def content? (d : Disk) (path : String) : Option String :=
  match d.look path with
  | .ok (.file content) => some content
  | _ => none

/-- Put a file and the folders that lead to it, whatever the medium. -/
def addFile (d : Disk) (path content : String) : Disk :=
  let p := Path.ofText path
  let d := (List.range p.parts.length).foldl (fun d n =>
    let q := { p with parts := p.parts.take n }
    if (d.entry? q).isSome then d else d.put q .folder) d
  d.put p (.file content)

/-- A checked disk with the given files. -/
def ofFiles (files : List (String × String)) : Disk :=
  files.foldl (fun d (path, content) => d.addFile path content) {}

end Disk

end Tangent
