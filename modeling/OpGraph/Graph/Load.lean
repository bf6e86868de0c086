import OpGraph.Graph.File

/-!
Graphs and functions from files on disk.
-/

namespace OpGraph

/-- The content of the file at a path, if it can be read. -/
def fileContent? (path : String) : IO (Option ByteArray) :=
  try some <$> IO.FS.readBinFile path catch _ => return none

def Graph.load (path : String) : IO (Except FileError Graph) :=
  return Decoder.graph.ofFile path (← fileContent? path)

def Function.load (path : String) : IO (Except FileError Function) :=
  return Decoder.function.ofFile path (← fileContent? path)

end OpGraph
