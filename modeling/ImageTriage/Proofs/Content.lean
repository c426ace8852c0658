import ImageTriage.Content
import ImageTriage.Proofs.Text.Lines

/-!
# What is asked of a sniffer

How kinds of content are told is left open. Two things are asked of a way to tell them, each where
it is needed: that the extension of every kind is a word (`HasWords`), for it becomes part of the
name of a file, and that its media type is one line (`HasLines`), for it is shown in a report.
-/

namespace ImageTriage

namespace Content

/-- The extension of every kind is a word of letters and digits. -/
def HasWords (detect : Bytes → Option Content) : Prop :=
  ∀ data content, detect data = some content →
    content.extension ≠ "" ∧ content.extension.toList.all Char.isAlphanum

/-- The media type of every kind is one line. -/
def HasLines (detect : Bytes → Option Content) : Prop :=
  ∀ data content, detect data = some content → Text.OneLine content.mediaType

theorem isAlphanum_extensionBy {detect : Bytes → Option Content} (hdetect : HasWords detect)
    (data : Bytes) : (extensionBy detect data).toList.all Char.isAlphanum := by
  rw [extensionBy]
  cases hfound : detect data with
  | none => decide
  | some content => exact (hdetect data content hfound).2

end Content

namespace Sniffer

/-- A program. -/
def program : Content := ⟨"application/vnd.microsoft.portable-executable", "exe"⟩

/-- A sniffer that knows programs only, by their first two bytes. -/
abbrev programs : Sniffer where
  sniff data := if data.slice? 0 2 = some ⟨#[0x4D, 0x5A]⟩ then some program else none

theorem eq_program_of_sniff {data : Bytes} {content : Content}
    (h : programs.sniff data = some content) : content = program :=
  (Option.some.inj (Option.ite_none_right_eq_some.1 h).2).symm

theorem hasWords_programs : Content.HasWords programs.sniff := by
  intro data content h
  rw [eq_program_of_sniff h]
  decide

theorem hasLines_programs : Content.HasLines programs.sniff := by
  intro data content h
  rw [eq_program_of_sniff h]
  decide

end Sniffer

end ImageTriage
