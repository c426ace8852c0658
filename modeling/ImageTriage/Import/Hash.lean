import ImageTriage.Digest.Md5
import ImageTriage.Import.Table
import ImageTriage.Text.Case

/-!
# The import hash

Programs built from the same sources import the same functions in the same order, so a digest of
that list finds relatives of a program. The list holds `module.function` for every function bound at
load time, in lower case, the module without its usual extension; a function imported by number is
`ord` and the number. Functions without a name or a number, and those bound later, are left out.
-/

namespace ImageTriage.ImportHash

/-- The extensions that a module loses. -/
def extensions : List String := [".dll", ".ocx", ".sys"]

/-- The text without the given end, if it has it. -/
def withoutSuffix? (s suffix : String) : Option String :=
  let cs := s.toList
  let rest := cs.length - suffix.length
  if cs.drop rest = suffix.toList then some (String.ofList (cs.take rest)) else none

/-- The name of a module in the list. -/
def moduleName (dllName : String) : String :=
  let name := Text.lower dllName
  (extensions.findSome? (withoutSuffix? name)).getD name

/-- The name of a function in the list. -/
def functionName? : ImportTarget → Option String
  | .ordinal number => some ("ord" ++ toString number.toNat)
  | .named name _ => name.map Text.lower

/-- The functions of a library in the list. -/
def listed (d : ImportDescriptor) : List String :=
  match d.kind with
  | .delayLoaded => []
  | .regular =>
    d.entries.filterMap fun e =>
      (functionName? e.target).map fun function => moduleName d.dllName ++ "." ++ function

/-- The text that is digested. -/
def text (t : ImportTable) : String := String.intercalate "," (t.descriptors.flatMap listed)

/-- The import hash of a table. -/
def hex (t : ImportTable) : String := Digest.Md5.hex (text t).toUTF8

end ImageTriage.ImportHash
