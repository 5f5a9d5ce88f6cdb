import ModuleBundler.Text.Basic

/-!
What the command line tells about itself, for lines of eighty columns.
-/
namespace ModuleBundler.CommandLine

def programName : Text := "minipack".toList

def usageLines : List String :=
  ["usage: minipack [-h] [-o OUTPUT] [--format \x7bfunction,string\x7d] [--no-banner]",
    "                [--config CONFIG] [--graph] [--run] [--verbose]",
    "                [entry]"]

def helpLines : List String :=
  ["",
    "Bundle an ES module entry file and its relative imports into one script",
    "",
    "positional arguments:",
    "  entry                 Entry file (default: 'entry' from the config file)",
    "",
    "options:",
    "  -h, --help            show this help message and exit",
    "  -o OUTPUT, --output OUTPUT",
    "                        Write the bundle here instead of stdout",
    "  --format \x7bfunction,string\x7d",
    "                        How module bodies are embedded (default: function)",
    "  --no-banner           Omit the header comment",
    "  --config CONFIG       Config file (default: ./minipack.json if present)",
    "  --graph               Print the module graph as JSON instead of bundling",
    "  --run                 Build into __minipack_build__/ and run it with node",
    "  --verbose             Enable verbose output (sent to stderr)"]

def paragraph (lines : List String) : Text := lines.flatMap fun line => line.toList ++ ['\n']

def usageText : Text := paragraph usageLines

def helpText : Text := usageText ++ paragraph helpLines

end ModuleBundler.CommandLine
