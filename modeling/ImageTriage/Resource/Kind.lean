/-!
# Kinds and languages of resources

A resource is found by its kind, its name and its language. Kinds and names are numbers or texts.
The numbers of the usual kinds and of the common languages have names of their own.
-/

namespace ImageTriage

/-- What identifies a node of the resource tree. -/
inductive ResourceId where
  | named (text : String)
  | number (n : UInt32)
  deriving DecidableEq, Repr

namespace ResourceId

/-- The text of an identifier. -/
def text : ResourceId → String
  | named text => text
  | number n => toString n.toNat

/-- A bitmap. -/
def bitmap : UInt32 := 2
/-- One size of an icon. -/
def icon : UInt32 := 3
/-- A table of strings. -/
def stringTable : UInt32 := 6
/-- An icon: a list of its sizes. -/
def iconGroup : UInt32 := 14
/-- The version of the image. -/
def version : UInt32 := 16
/-- A page of hypertext. -/
def hypertext : UInt32 := 23
/-- The manifest of the image. -/
def manifest : UInt32 := 24

/-- The kinds that have a name. -/
def kindNames : List (UInt32 × String) :=
  [(1, "RT_CURSOR"), (bitmap, "RT_BITMAP"), (icon, "RT_ICON"), (4, "RT_MENU"), (5, "RT_DIALOG"),
    (stringTable, "RT_STRING"), (7, "RT_FONTDIR"), (8, "RT_FONT"), (9, "RT_ACCELERATOR"),
    (10, "RT_RCDATA"), (11, "RT_MESSAGETABLE"), (12, "RT_GROUP_CURSOR"),
    (iconGroup, "RT_GROUP_ICON"), (version, "RT_VERSION"), (17, "RT_DLGINCLUDE"),
    (19, "RT_PLUGPLAY"), (20, "RT_VXD"), (21, "RT_ANICURSOR"), (22, "RT_ANIICON"),
    (hypertext, "RT_HTML"), (manifest, "RT_MANIFEST")]

/-- The name of a kind; a kind without one is its own text. -/
def kindName : ResourceId → String
  | named text => text
  | number n => (kindNames.lookup n).getD (toString n.toNat)

end ResourceId

end ImageTriage
