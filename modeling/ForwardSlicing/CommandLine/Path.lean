import ForwardSlicing.Failure
/-!
# Paths and files

A path is written with single slashes and without parts that stay where they are. Reading a path gives the bytes of
a file, or says why it cannot be read.
-/

namespace ForwardSlicing.CommandLine

namespace Path

/-- The parts of a path that lead somewhere. -/
def parts (path : String) : List String :=
  (path.splitOn "/").filter fun p => p ≠ "" && p ≠ "."

/-- The slashes that a path starts with: two are kept, any other number means one. -/
def root (path : String) : String :=
  match (path.toList.takeWhile (· == '/')).length with
  | 0 => ""
  | 2 => "//"
  | _ => "/"

/-- The bytes that a code point takes up in a name. A surrogate from U+DC80 to U+DCFF stands for a single byte. -/
def codePointSize (n : Nat) : Nat := if Text.isSurrogate n then 1 else (Char.ofNat n).utf8Size

/-- The bytes of a name. -/
def size (name : String) : Nat := (Text.codePoints name).foldl (fun size n => size + codePointSize n) 0

/-- The most bytes that a part may have. -/
def maxPart : Nat := 255

/-- The most bytes that a path may have. -/
def maxSize : Nat := 4095

/-- A surrogate that stands for a byte. -/
def isByte (n : Nat) : Bool := 0xdc80 ≤ n && n ≤ 0xdcff

/-- The first surrogates of a path that stand for no byte, from position `i` on: the rest of the surrogates that
follow one another counts with them. -/
def unencodableFrom (i : Nat) : List Nat → Option FileFault
  | [] => none
  | n :: ns =>
    if Text.isSurrogate n && !isByte n then
      some (.unencodable i ((ns.takeWhile Text.isSurrogate).length + 1) n)
    else unencodableFrom (i + 1) ns

def unencodable? (path : String) : Option FileFault := unencodableFrom 0 (Text.codePoints path)

/-- A path in its plain form. -/
def normal (path : String) : String :=
  let s := root path ++ "/".intercalate (parts path)
  if s.isEmpty then "." else s

end Path

/-- What reading a path in its plain form gives. -/
abbrev Reading := String → Except FileFault (List Nat)

/-- The files of the current directory, by path. -/
structure Directory where
  files : List (String × List Nat)

namespace Directory

/-- A place that a path leads to, by its parts: below the current directory, below the root, or not known. -/
inductive Place where
  | inside (parts : List String)
  | rooted (parts : List String)
  | outside

namespace Place

def parent : Place → Place
  | .inside (part :: parts) => .inside (part :: parts).dropLast
  | .inside [] => .outside
  | .rooted parts => .rooted parts.dropLast
  | .outside => .outside

def child (part : String) : Place → Place
  | .inside parts => .inside (parts ++ [part])
  | .rooted parts => .rooted (parts ++ [part])
  | .outside => .outside

end Place

/-- What there is at a place. -/
inductive Entry where
  | file (bytes : List Nat)
  | directory

/-- The directories at the root of every system. -/
def rootDirectories : List String :=
  ["bin", "boot", "dev", "etc", "home", "lib", "media", "mnt", "opt", "proc", "run", "sbin", "srv", "sys", "tmp",
   "usr", "var"]

/-- Of all that is not in the current directory, only the null device is a file that can be read. -/
def entry? (d : Directory) : Place → Option Entry
  | .inside parts =>
    match d.files.find? (Path.parts ·.1 = parts) with
    | some f => some (.file f.2)
    | none => if d.files.any fun f => parts.isPrefixOf (Path.parts f.1) then some .directory else none
  | .rooted parts =>
    if parts = ["dev", "null"] then some (.file [])
    else if parts.length = 1 && parts.all rootDirectories.contains then some .directory
    else none
  | .outside => none

/-- The bytes at the end of some parts, taken one after the other from a place that is a directory. -/
def follow (d : Directory) : Place → List String → Except FileFault (List Nat)
  | _, [] => .error .isDirectory
  | place, part :: rest =>
    if part = ".." then d.follow place.parent rest
    else if Path.maxPart < Path.size part then .error .nameTooLong
    else match d.entry? (place.child part) with
      | none => .error .notFound
      | some (.file bytes) => if rest.isEmpty then .ok bytes else .error .notDirectory
      | some .directory => d.follow (place.child part) rest

def read (d : Directory) : Reading := fun path =>
  match Path.unencodable? path with
  | some fault => .error fault
  | none =>
    if path.toList.contains (Char.ofNat 0) then .error .invalidName
    else if Path.maxSize < Path.size path then .error .nameTooLong
    else d.follow (if Path.root path = "" then .inside [] else .rooted []) (Path.parts path)

end Directory
end ForwardSlicing.CommandLine
