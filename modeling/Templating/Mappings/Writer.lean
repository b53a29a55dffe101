import Templating.Mappings.Cursor
import Templating.Vlq

namespace Templating.Mappings

def writeSegment (fields : List Int64) : List Char :=
  fields.flatMap Vlq.encode

def writeLine (segments : List (List Int64)) : List Char :=
  [','].intercalate (segments.map writeSegment)

def writeLines (lines : List (List (List Int64))) : List Char :=
  [';'].intercalate (lines.map writeLine)

def write (lines : List (List Segment)) : String :=
  String.ofList (writeLines (({} : Cursor).allFields lines))

end Templating.Mappings
