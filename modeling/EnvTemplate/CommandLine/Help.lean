import EnvTemplate.CommandLine.Invocation

/-!
What the program says about itself.
-/
namespace EnvTemplate
namespace CommandLine

def versionText : String := "oxidize-env 0.1.0\n"

def sharedOptions : String :=
  "      --vars <FILE>       Seed variables from a TOML file (nested tables become `parent_child`)\n" ++
  "  -s, --set <NAME=VALUE>  Set a variable; may be repeated\n" ++
  "      --isolated          Do not inherit the process environment\n" ++
  "      --keep-unset        Leave unset `$VAR` / `$\x7bVAR\x7d` placeholders as written\n" ++
  "  -v, --verbose           Log debug output to stderr\n" ++
  "  -h, --help              Print help\n"

def helpText : Topic → String
  | .program =>
    "Shell-style placeholder expansion\n\n" ++
    "Usage: oxidize-env [OPTIONS] <COMMAND>\n\n" ++
    "Commands:\n" ++
    "  expand  Expand files (stdin if none) and concatenate the results\n" ++
    "  render  Expand every `*.tpl` under a directory into an output directory\n" ++
    "  help    Print this message or the help of the given subcommand(s)\n\n" ++
    "Options:\n" ++ sharedOptions ++
    "  -V, --version           Print version\n"
  | .command .expand =>
    "Expand files (stdin if none) and concatenate the results\n\n" ++
    "Usage: oxidize-env expand [OPTIONS] [INPUTS]...\n\n" ++
    "Arguments:\n" ++
    "  [INPUTS]...  \n\n" ++
    "Options:\n" ++
    "  -o, --output <OUTPUT>   Write atomically to this file instead of stdout\n" ++ sharedOptions
  | .command .render =>
    "Expand every `*.tpl` under a directory into an output directory\n\n" ++
    "Usage: oxidize-env render [OPTIONS] <TEMPLATES_DIR> <OUT_DIR>\n\n" ++
    "Arguments:\n" ++
    "  <TEMPLATES_DIR>  \n" ++
    "  <OUT_DIR>        \n\n" ++
    "Options:\n" ++ sharedOptions
  | .help =>
    "Print this message or the help of the given subcommand(s)\n\n" ++
    "Usage: oxidize-env help [COMMAND]...\n\n" ++
    "Arguments:\n" ++
    "  [COMMAND]...  Print help for the subcommand(s)\n"

/-- What is said about a command line that cannot be read. -/
def usageText : String :=
  "Usage: oxidize-env [OPTIONS] <COMMAND>\n\nFor more information, try '--help'.\n"

end CommandLine
end EnvTemplate
