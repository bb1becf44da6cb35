/-!
# Help

The texts that tell about the program itself.
-/

namespace ShellScript.Cli

/-- The name of the program with its version. -/
def versionText : String := "gsh 0.1.0+oracle\n"

/-- What the program does, and the options it knows. -/
def helpText : String := "\n".intercalate [
  "Run bash-like scripts with builtins only",
  "",
  "Usage: gsh [OPTIONS] [FILE]",
  "",
  "Arguments:",
  "  [FILE]  Script file; standard input when omitted or `-`",
  "",
  "Options:",
  "  -c <SCRIPT>             Script text to run instead of a file",
  "      --dump              Print each parsed command as a JSON line instead of running it",
  "      --escape <CHARS>    Extra characters that end a command, besides `;` and newline",
  "      --config <PATH>     Config file (default: $GSH_CONFIG, then <config dir>/gsh/config.toml)",
  "      --var <NAME=VALUE>  Set a variable, may be repeated",
  "  -h, --help              Print help",
  "  -V, --version           Print version",
  ""]

end ShellScript.Cli
