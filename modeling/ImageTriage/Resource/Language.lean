import ImageTriage.Text.Numeral

/-!
# Languages

The names of the common language codes.
-/

namespace ImageTriage.Language

/-- The language codes that have a name. -/
def names : List (UInt32 × String) :=
  [(0x0000, "Neutral"), (0x0400, "Process default"), (0x0401, "Arabic (Saudi Arabia)"),
    (0x0404, "Chinese (Taiwan)"), (0x0405, "Czech"), (0x0406, "Danish"),
    (0x0407, "German (Germany)"), (0x0408, "Greek"), (0x0409, "English (United States)"),
    (0x040a, "Spanish (Traditional Sort)"), (0x040b, "Finnish"), (0x040c, "French (France)"),
    (0x040d, "Hebrew"), (0x040e, "Hungarian"), (0x0410, "Italian (Italy)"), (0x0411, "Japanese"),
    (0x0412, "Korean"), (0x0413, "Dutch (Netherlands)"), (0x0414, "Norwegian (Bokmal)"),
    (0x0415, "Polish"), (0x0416, "Portuguese (Brazil)"), (0x0418, "Romanian"),
    (0x0419, "Russian"), (0x041d, "Swedish"), (0x041f, "Turkish"), (0x0422, "Ukrainian"),
    (0x0429, "Persian"), (0x0804, "Chinese (PRC)"), (0x0809, "English (United Kingdom)"),
    (0x080a, "Spanish (Mexico)"), (0x0816, "Portuguese (Portugal)"),
    (0x0c0a, "Spanish (Modern Sort)")]

/-- The name of a language code. -/
def name? (code : UInt32) : Option String := names.lookup code

/-- The name of a language code, or the code itself. -/
def label (code : UInt32) : String := (name? code).getD (Text.hexMarked 4 code.toNat)

end ImageTriage.Language
