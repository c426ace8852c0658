import ImageTriage.CommandLine.Execution
import ImageTriage.CommandLine.Reader
import ImageTriage.Content.Kinds
import ImageTriage.Settings.Fields

/-!
# The parts of the program

The program as it is shipped: content is told by its first bytes, settings files are written in
JSON, and arguments have long names and letters.
-/

namespace ImageTriage.Program

instance : Sniffer := Content.sniffer

instance : SettingsDecoder := Settings.decoder

instance : ArgumentReader := Arguments.reader

end ImageTriage.Program
