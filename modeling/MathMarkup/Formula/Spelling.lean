import MathMarkup.Formula.Symbol

/-!
# Spellings of the symbols

* `spellings` — every spelling of the notation with its symbol.
* `longestMatch` — the longest spelling at the start of a text.
-/

namespace MathMarkup.Formula

/-- A way to write a symbol. -/
structure Spelling where
  letters : List Char
  symbol : Symbol
  deriving DecidableEq, Repr

namespace Spelling

/-- Greek letters, and the ampersand, which has no other meaning, with their glyphs. -/
def greekLetters : List (String × String) :=
  [("alpha", "&#x3B1;"), ("beta", "&#x3B2;"), ("gamma", "&#x3B3;"), ("Gamma", "&#x393;"),
   ("delta", "&#x3B4;"), ("Delta", "&#x394;"), ("epsilon", "&#x3B5;"), ("varepsilon", "&#x25B;"),
   ("zeta", "&#x3B6;"), ("eta", "&#x3B7;"), ("theta", "&#x3B8;"), ("Theta", "&#x398;"),
   ("vartheta", "&#x3D1;"), ("iota", "&#x3B9;"), ("kappa", "&#x3BA;"), ("lambda", "&#x3BB;"),
   ("Lambda", "&#x39B;"), ("mu", "&#x3BC;"), ("nu", "&#x3BD;"), ("xi", "&#x3BE;"),
   ("Xi", "&#x39E;"), ("pi", "&#x3C0;"), ("Pi", "&#x3A0;"), ("rho", "&#x3C1;"),
   ("sigma", "&#x3C3;"), ("Sigma", "&#x3A3;"), ("tau", "&#x3C4;"), ("upsilon", "&#x3C5;"),
   ("phi", "&#x3D5;"), ("Phi", "&#x3A6;"), ("varphi", "&#x3C6;"), ("chi", "&#x3C7;"),
   ("psi", "&#x3C8;"), ("Psi", "&#x3A8;"), ("omega", "&#x3C9;"), ("Omega", "&#x3A9;"),
   ("&", "&amp;")]

/-- Names of functions, which are written as they are spelled. -/
def functionNames : List String :=
  ["sin", "cos", "tan", "sec", "csc", "cot", "arcsin", "arccos", "arctan", "sinh", "cosh", "tanh",
   "sech", "csch", "coth", "exp", "log", "ln", "det", "dim", "mod", "gcd", "lcm", "lub", "glb",
   "min", "max"]

/-- Logical words. -/
def words : List String :=
  ["and", "or", "if"]

/-- Operations of arithmetic, algebra and set theory. -/
def operations : List (String × List String) :=
  [("+", ["+"]), ("-", ["-"]), ("&#x22C5;", ["*", "cdot"]), ("&#x2217;", ["**", "ast"]),
   ("&#x22C6;", ["***", "star"]), ("/", ["//"]), ("\\", ["\\\\", "backslash", "setminus"]),
   ("&#xD7;", ["xx", "times"]), ("&#xF7;", ["-:", "div"]), ("&#x22C9;", ["|><", "ltimes"]),
   ("&#x22CA;", ["><|", "rtimes"]), ("&#x22C8;", ["|><|", "bowtie"]), ("&#x2218;", ["@", "circ"]),
   ("&#x2295;", ["o+", "oplus"]), ("&#x2297;", ["ox", "otimes"]), ("&#x2299;", ["o.", "odot"]),
   ("&#x2227;", ["^^", "wedge"]), ("&#x2228;", ["vv", "vee"]), ("&#x2229;", ["nn", "cap"]),
   ("&#x222A;", ["uu", "cup"]), ("|", ["|"]), ("&#x22C1;", ["vvv", "bigvee"])]

/-- Integrals, dots, shapes, half brackets, number sets and spaces. -/
def miscellany : List (String × List String) :=
  [("&#x222B;", ["int"]), ("&#x222E;", ["oint"]), ("&#x2202;", ["del", "partial"]),
   ("&#x2207;", ["grad", "nabla"]), ("&#xB1;", ["+-", "pm"]), ("&#x2205;", ["O/", "emptyset"]),
   ("&#x221E;", ["oo", "infty"]), ("&#x2135;", ["aleph"]), ("&#x2234;", [":.", "therefore"]),
   ("&#x2235;", [":'", "because"]), ("&#x2026;", ["...", "ldots"]), ("&#x22EF;", ["cdots"]),
   ("&#x22EE;", ["vdots"]), ("&#x22F1;", ["ddots"]), ("&#x2220;", ["/_", "angle"]),
   ("&#x2322;", ["frown"]), ("&#x25B3;", ["/_\\", "triangle"]), ("&#x22C4;", ["diamond"]),
   ("&#x25A1;", ["square"]), ("&#x230A;", ["|__", "lfloor"]), ("&#x230B;", ["__|", "rfloor"]),
   ("&#x2308;", ["|~", "lceiling"]), ("&#x2309;", ["~|", "rceiling"]), ("&#x2102;", ["CC"]),
   ("&#x2115;", ["NN"]), ("&#x211A;", ["QQ"]), ("&#x211D;", ["RR"]), ("&#x2124;", ["ZZ"]),
   ("&#xA0;", ["\\ "]), ("&#xA0;&#xA0;", ["quad"]), ("&#xA0;&#xA0;&#xA0;&#xA0;", ["qquad"])]

/-- Relations of order, membership and equivalence. -/
def relations : List (String × List String) :=
  [("=", ["="]), ("&#x2260;", ["!=", "ne", "neq"]), ("&lt;", ["<", "lt"]), ("&gt;", [">", "gt"]),
   ("&#x2264;", ["<=", "le"]), ("&#x2265;", [">=", "ge"]), ("&#x226A;", ["mlt", "ll"]),
   ("&#x226B;", ["mgt", "gg"]), ("&#x227A;", ["-<", "prec"]), ("&#x2AAF;", ["-<=", "preceq"]),
   ("&#x227B;", [">-", "succ"]), ("&#x2AB0;", [">-=", "succeq"]), ("&#x2208;", ["in"]),
   ("&#x2209;", ["!in", "notin"]), ("&#x2282;", ["sub", "subset"]),
   ("&#x2283;", ["sup", "supset"]), ("&#x2286;", ["sube", "subseteq"]),
   ("&#x2287;", ["supe", "supseteq"]), ("&#x2261;", ["-=", "equiv"]), ("&#x2245;", ["~=", "cong"]),
   ("&#x2248;", ["~~", "approx"]), ("&#x221D;", ["prop", "propto"])]

/-- Arrows. -/
def arrows : List (String × List String) :=
  [("&#x2191;", ["uarr", "uparrow"]), ("&#x2193;", ["darr", "downarrow"]),
   ("&#x2192;", ["rarr", "rightarrow", "->", "to"]), ("&#x21A3;", [">->", "rightarrowtail"]),
   ("&#x21A0;", ["->>", "twoheadrightarrow"]), ("&#x2916;", [">->>", "twoheadrightarrowtail"]),
   ("&#x21A6;", ["|->", "mapsto"]), ("&#x2190;", ["larr", "leftarrow"]),
   ("&#x2194;", ["harr", "leftrightarrow"]), ("&#x21D2;", ["rArr", "Rightarrow"]),
   ("&#x21D0;", ["lArr", "Leftarrow"]), ("&#x21D4;", ["hArr", "Leftrightarrow"])]

/-- Connectives, quantifiers and turnstiles. -/
def connectives : List (String × List String) :=
  [("&#xAC;", ["not", "neg"]), ("&#x21D2;", ["=>", "implies"]), ("&#x21D4;", ["<=>", "iff"]),
   ("&#x2200;", ["AA", "forall"]), ("&#x2203;", ["EE", "exists"]), ("&#x22A5;", ["_|_", "bot"]),
   ("&#x22A4;", ["TT", "top"]), ("&#x22A2;", ["|--", "vdash"]), ("&#x22A8;", ["|==", "models"])]

/-- Operators over a range. -/
def largeOperators : List (String × List String) :=
  [("&#x2211;", ["sum"]), ("&#x220F;", ["prod"]), ("&#x22C0;", ["^^^", "bigwedge"]),
   ("&#x22C2;", ["nnn", "bigcap"]), ("&#x22C3;", ["uuu", "bigcup"]), ("lim", ["lim"])]

/-- Brackets of every kind. -/
def brackets : List (String × Symbol) :=
  [("(", .opening .paren), (")", .closing .paren), ("[", .opening .square),
   ("]", .closing .square), ("\x7b", .opening .brace), ("\x7d", .closing .brace),
   ("(:", .opening .angle), (":)", .closing .angle), ("<<", .opening .angle),
   (">>", .closing .angle), ("langle", .opening .angle), ("rangle", .closing .angle),
   ("\x7b:", .opening .invisible), (":\x7d", .closing .invisible)]

/-- The signs that join operands into scripts and fractions. -/
def joints : List (String × Symbol) :=
  [("^", .superscript), ("_", .subscript), ("/", .slash)]

/-- Accents and horizontal braces. -/
def accents : List (String × Symbol) :=
  [("hat", .unary (.accent "^" .above)), ("bar", .unary (.accent "&#xAF;" .above)),
   ("overline", .unary (.accent "&#xAF;" .above)), ("vec", .unary (.accent "&#x2192;" .above)),
   ("tilde", .unary (.accent "~" .above)), ("dot", .unary (.accent "." .above)),
   ("ddot", .unary (.accent ".." .above)), ("ul", .unary (.accent "&#x332;" .below)),
   ("underline", .unary (.accent "&#x332;" .below)), ("obrace", .unary (.brace "&#x23DE;" .above)),
   ("overbrace", .unary (.brace "&#x23DE;" .above)), ("ubrace", .unary (.brace "&#x23DF;" .below)),
   ("underbrace", .unary (.brace "&#x23DF;" .below))]

/-- Symbols that take operands. -/
def constructs : List (String × Symbol) :=
  [("abs", .unary (.delimit "|" "|")), ("floor", .unary (.delimit "&#x230A;" "&#x230B;")),
   ("ceil", .unary (.delimit "&#x2308;" "&#x2309;")),
   ("norm", .unary (.delimit "&#x2225;" "&#x2225;")), ("sqrt", .unary .squareRoot),
   ("root", .binary .root), ("frac", .binary .fraction), ("overset", .binary .overset),
   ("stackrel", .binary .overset), ("underset", .binary .underset), ("cancel", .unary .cancel),
   ("text", .text), ("mbox", .text), ("color", .color)]

/-- Variants of the alphabet. -/
def styles : List (String × Symbol) :=
  [("bb", .unary (.style .bold)), ("bbb", .unary (.style .doubleStruck)),
   ("cc", .unary (.style .script)), ("tt", .unary (.style .monospace)),
   ("fr", .unary (.style .fraktur)), ("sf", .unary (.style .sansSerif))]

/-- The spellings that a glyph gathers, as spellings of one sign. -/
def gather (sign : String → Sign) (entries : List (String × List String)) : List Spelling :=
  entries.flatMap fun (glyph, names) =>
    names.map fun name => ⟨name.toList, .sign (sign glyph)⟩

/-- The spellings of symbols that are listed one by one. -/
def each (entries : List (String × Symbol)) : List Spelling :=
  entries.map fun (name, symbol) => ⟨name.toList, symbol⟩

end Spelling

open Spelling in
/-- Every spelling of the notation. -/
def spellings : List Spelling :=
  greekLetters.map (fun (name, glyph) => ⟨name.toList, .sign (.identifier glyph)⟩) ++
    functionNames.map (fun name => ⟨name.toList, .sign (.identifier name)⟩) ++
    words.map (fun name => ⟨name.toList, .sign (.word name)⟩) ++
    gather .operator (operations ++ miscellany ++ relations ++ arrows ++ connectives) ++
    gather .largeOperator largeOperators ++
    each (brackets ++ joints ++ accents ++ constructs ++ styles)

/-- The longest of the given spellings that starts the text. -/
def longestOf : List Spelling → List Char → Option Spelling
  | [], _ => none
  | s :: rest, text =>
    let best := longestOf rest text
    if s.letters.isPrefixOf text then
      match best with
      | none => some s
      | some b => if b.letters.length < s.letters.length then some s else some b
    else best

/-- The longest spelling of the notation that starts the text. -/
def longestMatch (text : List Char) : Option Spelling := longestOf spellings text

end MathMarkup.Formula
