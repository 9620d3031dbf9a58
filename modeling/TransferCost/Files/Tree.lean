import TransferCost.Files.Basic

/-!
# A tree of files

A `FileTree` is a directory tree in memory: what stands at each location, and which location is the
current directory.  Reading, writing and the making of directories work on it as they do on a disk,
down to the cause of each failure.

## How a path is followed

Every name but the last must be that of a directory.  The names `.` and `..` stay and go up, and are
never missing.  A missing name, a file in the place of a directory and a name of more than 255 bytes
each stop the walk with a cause of their own, at the first place where it occurs.

`makeDirs` goes the other way, from a directory to its parents, as long as names are missing.  There
a `.` counts as no name, so the parent of `a/./b` is `a`.

## The laws

`find?_put` says what stands where after a change.  A failing write or read changes nothing, by its
type; a failing `makeDirs` may leave directories behind.
-/

namespace TransferCost
namespace Files

/-- A place in a tree: the names on the way to it, the innermost first. -/
abbrev Location := List String

/-- What stands at a location. -/
inductive Entry where
  | directory
  /-- A file, with its text unless its bytes are none. -/
  | file (text? : Option String)
deriving DecidableEq

/-- A directory tree. -/
structure FileTree where
  /-- The current directory. -/
  here : Location
  entries : List (Location × Entry)

namespace FileTree

/-- The tree that holds nothing but its root, which is the current directory. -/
def empty : FileTree :=
  ⟨[], []⟩

/-- What stands at a location.  The root is always a directory. -/
def find? (t : FileTree) (l : Location) : Option Entry :=
  if l = [] then some .directory else t.entries.lookup l

/-- The tree with something else at a location. -/
def put (t : FileTree) (l : Location) (e : Entry) : FileTree :=
  { t with entries := (l, e) :: t.entries.filter (·.1 ≠ l) }

theorem lookup_filter_ne {l l' : Location} (h : l' ≠ l) (es : List (Location × Entry)) :
    (es.filter (·.1 ≠ l)).lookup l' = es.lookup l' := by
  induction es with
  | nil => rfl
  | cons e rest ih =>
    rcases e with ⟨k, e⟩
    by_cases hk : k = l
    · subst hk
      rw [List.filter_cons_of_neg (by simp), ih, List.lookup_cons, beq_eq_false_iff_ne.2 h]
    · rw [List.filter_cons_of_pos (by simpa using hk), List.lookup_cons, List.lookup_cons, ih]

/-- **A change at one location is a change at no other.** -/
theorem find?_put (t : FileTree) {l : Location} (hl : l ≠ []) (e : Entry) (l' : Location) :
    (t.put l e).find? l' = if l' = l then some e else t.find? l' := by
  unfold find? put
  by_cases h : l' = l
  · subst h
    simp [hl]
  · rw [List.lookup_cons, beq_eq_false_iff_ne.2 h, lookup_filter_ne h, if_neg h]

/-! ## Following a path -/

/-- The location of a name inside a directory, whether or not anything stands there. -/
def child (t : FileTree) (l : Location) (name : String) : Except FileError Location :=
  match t.find? l with
  | none => .error .notFound
  | some (.file _) => .error .notDirectory
  | some .directory =>
    if name = "." then .ok l
    else if name = ".." then .ok l.tail
    else if 255 < name.utf8ByteSize then .error .nameTooLong
    else .ok (name :: l)

/-- The location of names, the innermost first, at which something stands. -/
def follow (t : FileTree) (start : Location) : List String → Except FileError Location
  | [] => .ok start
  | name :: outer => do
    let l ← t.child (← t.follow start outer) name
    if (t.find? l).isSome then return l
    throw .notFound

/-- The location of a new entry, whose name is the first.  Where there is no name at all, the
start is its own location. -/
def target (t : FileTree) (start : Location) : List String → Except FileError Location
  | [] => .ok start
  | name :: outer => do
    t.child (← t.follow start outer) name

/-- Where the names of a path start. -/
def start (t : FileTree) (p : Path) : Location :=
  if p.isAbsolute then [] else t.here

/-- The greatest size of a path in bytes. -/
def maxPathSize : Nat :=
  4095

/-- A path taken apart, unless it is too long or empty. -/
def parse (path : String) : Except FileError Path :=
  if maxPathSize < path.utf8ByteSize then .error .nameTooLong
  else if path.isEmpty then .error .notFound
  else .ok (Path.ofString path)

/-- The names of a path, with a name for the slash at its end. -/
def namesToFile (p : Path) : List String :=
  if p.endsInSlash then "." :: p.names else p.names

/-! ## Operations -/

/-- The text of a file. -/
def read (t : FileTree) (path : String) : Except FileError String := do
  let p ← parse path
  let l ← t.follow (t.start p) (namesToFile p)
  match t.find? l with
  | some (.file (some text)) => return text
  | some (.file none) => throw .notText
  | some .directory => throw .isDirectory
  | none => throw .notFound

/-- The tree with a text in a file, which is made or replaced. -/
def write (t : FileTree) (path text : String) : Except FileError FileTree := do
  let p ← parse path
  let l ← t.target (t.start p) (namesToFile p)
  match t.find? l with
  | some .directory => throw .isDirectory
  | _ => return t.put l (.file (some text))

/-- There is a directory at the end of these names. -/
def isDirectory (t : FileTree) (start : Location) (names : List String) : Bool :=
  match t.follow start names with
  | .ok l => t.find? l = some .directory
  | .error _ => false

/-- The tree with one new directory. -/
def makeDir (t : FileTree) (start : Location) (names : List String) :
    Except FileError FileTree := do
  let l ← t.target start names
  match t.find? l with
  | some _ => throw .alreadyExists
  | none => return t.put l .directory

/-- The second attempt to make a directory, after its parents.  It does not matter who made it. -/
def makeLast (t : FileTree) (start : Location) (names : List String) :
    Except FileError Unit × FileTree :=
  match t.makeDir start names with
  | .ok t' => (.ok (), t')
  | .error e => (if t.isDirectory start names then .ok () else .error e, t)

/-- Names without each `.` at the end of the path, which is the front of the list. -/
def withoutStays (names : List String) : List String :=
  names.dropWhile (· = ".")

theorem length_withoutStays_le (names : List String) :
    (withoutStays names).length ≤ names.length :=
  (List.dropWhile_sublist _).length_le

/-- The names of the parent directory: without the last name that says where to go, and without the
`.` on either side of it. -/
def parent (names : List String) : List String :=
  withoutStays (withoutStays names).tail

theorem length_parent_lt (name : String) (outer : List String) :
    (parent (name :: outer)).length < (name :: outer).length := by
  have h₁ := length_withoutStays_le (name :: outer)
  have h₂ := length_withoutStays_le (withoutStays (name :: outer)).tail
  rw [List.length_tail] at h₂
  rw [List.length_cons] at h₁ ⊢
  unfold parent
  omega

/-- A directory and those of its parents that are missing.  No name at all is the start, at which
there is nothing to do. -/
def makeDirsAt (t : FileTree) (start : Location) :
    List String → Except FileError Unit × FileTree
  | [] => (.ok (), t)
  | name :: outer =>
    match t.makeDir start (name :: outer) with
    | .ok t' => (.ok (), t')
    | .error .notFound =>
      match t.makeDirsAt start (parent (name :: outer)) with
      | (.ok (), t') => t'.makeLast start (name :: outer)
      | failure => failure
    | .error e => (if t.isDirectory start (name :: outer) then .ok () else .error e, t)
termination_by names => names.length
decreasing_by exact length_parent_lt name outer

/-- A directory and its missing parents. -/
def makeDirs (t : FileTree) (path : String) : Except FileError Unit × FileTree :=
  if path.isEmpty then (.ok (), t)
  else
    match parse path with
    | .error e => (.error e, t)
    | .ok p => t.makeDirsAt (t.start p) p.names

/-- The entries below a directory, each with its names from there on, the outermost first. -/
def below (t : FileTree) (l : Location) : List (List String × Entry) :=
  t.entries.filterMap fun (k, e) =>
    if l.isSuffixOf k && l.length < k.length then some ((k.take (k.length - l.length)).reverse, e)
    else none

end FileTree
end Files
end TransferCost
