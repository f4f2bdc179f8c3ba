/-! What the command says about itself. -/
namespace UnaryC.Command

def versionText : String :=
  "cygnet_driver 0.1.0\n"

/-- A text of several lines. -/
def page (lines : List String) : String :=
  String.join (lines.map (· ++ "\n"))

def helpText : String :=
  page
    ["Usage: cygnet [OPTIONS] <PATH>",
     "",
     "Arguments:",
     "  <PATH>  Path to C source file",
     "",
     "Options:",
     "      --lex      Stop after lexer",
     "      --parse    Stop after parser",
     "      --tacky    Stop after TACKY generation",
     "      --codegen  Stop after assembly generation",
     "  -S             Emit assembly file, but do not assemble or link it",
     "  -c             Compile and assemble into object file, but do not link",
     "  -v, --verbose  Print a line to stderr for each driver step",
     "  -h, --help     Print help (see more with '--help')",
     "  -V, --version  Print version"]

def fullHelpText : String :=
  page
    ["Runs the Cygnet C compiler",
     "",
     "Usage: cygnet [OPTIONS] <PATH>",
     "",
     "Arguments:",
     "  <PATH>",
     "          Path to C source file",
     "",
     "Options:",
     "      --lex",
     "          Stop after lexer",
     "",
     "      --parse",
     "          Stop after parser",
     "",
     "      --tacky",
     "          Stop after TACKY generation",
     "",
     "      --codegen",
     "          Stop after assembly generation",
     "",
     "  -S",
     "          Emit assembly file, but do not assemble or link it",
     "",
     "  -c",
     "          Compile and assemble into object file, but do not link",
     "",
     "  -v, --verbose",
     "          Print a line to stderr for each driver step",
     "",
     "  -h, --help",
     "          Print help (see a summary with '-h')",
     "",
     "  -V, --version",
     "          Print version"]

end UnaryC.Command
