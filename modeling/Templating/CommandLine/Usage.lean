import Templating.CommandLine.Report

namespace Templating.CommandLine

def programName : String := "template-tools"

def versionText : String := programName ++ " 0.3.0"

def usage : String :=
  lines [
    "Usage: " ++ programName ++ " [OPTIONS] <COMMAND>",
    "",
    "Commands:",
    "  tag <NAMES>... [--ns <NS>]       Show the parsing rules for one or more tag names",
    "  encode <PLANS>... [--comment]    Encode source maps from emit plan files",
    "  decode <MAP>                     Decode the mappings of a source map file",
    "  help [COMMAND]                   Print this message",
    "",
    "Options:",
    "      --workspace <WORKSPACE>  Directory of the configuration file [default: .]",
    "      --output <OUTPUT>        Output format: human or json [default: human]",
    "  -h, --help                   Print this message",
    "  -V, --version                Print the version"]

namespace Refusal

/-- What was asked for goes to the standard output. -/
def standardOutput : Refusal → String
  | .help => usage ++ "\n"
  | .version => versionText ++ "\n"
  | _ => ""

def complaint : Refusal → Option String
  | .help => none
  | .version => none
  | .nothingGiven => some usage
  | .missingCommand => some "error: a command is required"
  | .unknownCommand => some "error: unrecognized command"
  | .unknownArgument => some "error: unexpected argument"
  | .missingArgument => some "error: a required argument was not provided"
  | .badValue => some "error: an option has no value or an invalid one"
  | .repeated => some "error: an option was given more than once"
  | .needlessValue => some "error: an option that takes no value was given one"

end Refusal

end Templating.CommandLine
