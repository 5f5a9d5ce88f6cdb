import ModuleBundler.Text.Basic

/-!
The script that every bundle begins with: a function of the module table and the identity of the
entry. It runs each module on first use, keeps its exports, and leads specifiers to modules through
the mapping beside each module.
-/
namespace ModuleBundler.Bundle

def scriptLines : List String :=
  ["(function (modules, entry) \x7b",
    "  var cache = \x7b\x7d;",
    "  var has = Object.prototype.hasOwnProperty;",
    "",
    "  function require(id) \x7b",
    "    if (has.call(cache, id)) \x7b",
    "      return cache[id].exports;",
    "    \x7d",
    "    if (!has.call(modules, id)) \x7b",
    "      throw new Error(\"minipack: unknown module id \" + id);",
    "    \x7d",
    "    var fn = modules[id][0];",
    "    var mapping = modules[id][1];",
    "",
    "    function localRequire(name) \x7b",
    "      if (!has.call(mapping, name)) \x7b",
    "        throw new Error(\"minipack: cannot find module '\" + name + \"' from module \" + id);",
    "      \x7d",
    "      return require(mapping[name]);",
    "    \x7d",
    "",
    "    var module = \x7b exports: \x7b\x7d \x7d;",
    "    // Registered before running so circular requires see partial exports",
    "    cache[id] = module;",
    "    fn(localRequire, module, module.exports);",
    "    return module.exports;",
    "  \x7d",
    "",
    "  return require(entry);",
    "\x7d)"]

def script : Text := Text.joinWith ['\n'] (scriptLines.map String.toList)

end ModuleBundler.Bundle
