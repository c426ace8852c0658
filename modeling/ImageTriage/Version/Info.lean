import ImageTriage.Version.Block

/-!
# Version information

The version resource of an image: a fixed part with version numbers, tables of named strings, one
per language, and a list of languages with their code pages.
-/

namespace ImageTriage

/-- Four numbers, as in 10.0.19041.1. -/
structure VersionNumber where
  first : UInt16
  second : UInt16
  third : UInt16
  fourth : UInt16
  deriving DecidableEq, Repr

namespace VersionNumber

/-- The numbers of a high and a low word. -/
def ofWords (high low : UInt32) : VersionNumber :=
  ⟨(high >>> 16).toUInt16, high.toUInt16, (low >>> 16).toUInt16, low.toUInt16⟩

/-- The numbers, in order. -/
def toList (v : VersionNumber) : List UInt16 := [v.first, v.second, v.third, v.fourth]

/-- The numbers with points between them. -/
def text (v : VersionNumber) : String :=
  String.intercalate "." (v.toList.map fun n => toString n.toNat)

end VersionNumber

/-- The fixed part of version information. -/
structure FixedVersion where
  file : VersionNumber
  product : VersionNumber
  flagsMask : UInt32
  flags : UInt32
  system : UInt32
  fileKind : UInt32
  fileSubkind : UInt32
  deriving DecidableEq, Repr

/-- The named strings of one language. -/
structure VersionStrings where
  /-- Eight hexadecimal digits: the language, then the code page. -/
  key : String
  strings : List (String × String)
  deriving DecidableEq, Repr

/-- The version information of an image. -/
structure VersionInfo where
  fixed : Option FixedVersion
  tables : List VersionStrings
  /-- Languages with their code pages. -/
  languages : List (UInt16 × UInt16)
  deriving DecidableEq, Repr

namespace FixedVersion

/-- The mark of the fixed part. -/
def mark : UInt32 := 0xFEEF04BD

/-- The fixed part in the value of the root block, when it is marked and whole. -/
def read? (b : Bytes) : Option FixedVersion := do
  let found ← b.u32? 0
  guard (found = mark)
  return {
    file := .ofWords (← b.u32? 8) (← b.u32? 12)
    product := .ofWords (← b.u32? 16) (← b.u32? 20)
    flagsMask := ← b.u32? 24
    flags := ← b.u32? 28
    system := ← b.u32? 32
    fileKind := ← b.u32? 36
    fileSubkind := ← b.u32? 40 }

end FixedVersion

namespace VersionInfo

open Version

/-- The strings of a table block. -/
def readTable (b : Bytes) (table : Block) : Except Fault VersionStrings := do
  let strings ← table.inner b
  return { key := table.key, strings := strings.map fun s => (s.key, s.text) }

/-- The languages in a value, each with its code page; what is not a whole pair is left out. -/
def readPairs (value : Bytes) : List (UInt16 × UInt16) :=
  (List.range (value.size / 4)).map fun k =>
    ((value.u16? (4 * k)).getD 0, (value.u16? (4 * k + 2)).getD 0)

/-- Adds what a child of the root block holds. Children of other names are passed over. -/
def addChild (b : Bytes) (info : VersionInfo) (child : Block) : Except Fault VersionInfo :=
  if child.key = "StringFileInfo" then do
    let tables ← (← child.inner b).mapM (readTable b)
    return { info with tables := info.tables ++ tables }
  else if child.key = "VarFileInfo" then do
    let lists := (← child.inner b).filter (·.key == "Translation")
    return { info with languages := info.languages ++ lists.flatMap fun v => readPairs v.value }
  else
    return info

/-- Reads version information. -/
def parse (b : Bytes) : Except Fault VersionInfo := do
  let root ← Block.read b 0
  if root.key ≠ "VS_VERSION_INFO" then
    throw .versionInfo
  let children ← root.inner b
  children.foldlM (addChild b)
    { fixed := FixedVersion.read? root.value, tables := [], languages := [] }

/-- The first string of the given name, in any table. -/
def value? (info : VersionInfo) (key : String) : Option String :=
  ((info.tables.flatMap (·.strings)).find? (·.1 == key)).map (·.2)

end VersionInfo

end ImageTriage
