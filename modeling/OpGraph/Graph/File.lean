import OpGraph.Graph.Decode

/-!
Graphs and functions from the content of files.
-/

namespace OpGraph

/-- Why a file does not give a graph or a function. -/
inductive FileError where
  | unreadable (path : String)
  | malformed (path : String)
  deriving DecidableEq

def FileError.message : FileError → String
  | .unreadable path => "failed to read " ++ path
  | .malformed path => "failed to parse " ++ path

/-- Decodes the content of a file. No content stands for a file that cannot be read, and so does a
content that is not text in UTF-8. -/
def Decoder.ofFile {α : Type} (decode : Decoder α) (path : String) (content : Option ByteArray) :
    Except FileError α :=
  match content.bind String.fromUTF8? with
  | none => .error (.unreadable path)
  | some text => (decode.ofText text).mapError fun _ => .malformed path

end OpGraph
