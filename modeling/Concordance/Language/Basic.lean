/-!
# Languages

The languages that a project's files may be in, told by the ending of a file's name, and the
families of languages whose syntax trees are read in the same way.
-/

namespace Concordance

/-- A way of reading syntax trees that several languages may share. -/
inductive Family where
  | ecmascript
  | python
  | go
  | rust
  | jvm
  | csharp
  | c
  | php
  | ruby
  | generic
  deriving DecidableEq, Inhabited

namespace Family

/-- All families. -/
def all : List Family :=
  [.ecmascript, .python, .go, .rust, .jvm, .csharp, .c, .php, .ruby, .generic]

/-- The name of a family. -/
def name : Family → String
  | .ecmascript => "ecmascript"
  | .python => "python"
  | .go => "go"
  | .rust => "rust"
  | .jvm => "jvm"
  | .csharp => "csharp"
  | .c => "c"
  | .php => "php"
  | .ruby => "ruby"
  | .generic => "generic"

/-- The family of a name; any other name is read in the generic way. -/
def ofName (s : String) : Family :=
  (all.find? fun f => f.name == s).getD .generic

end Family

/-- A language. -/
inductive Language where
  | javascript
  | typescript
  | tsx
  | jsx
  | python
  | go
  | rust
  | java
  | kotlin
  | c
  | cpp
  | csharp
  | php
  | ruby
  | swift
  | dart
  | vue
  | svelte
  | html
  | css
  | scss
  | json
  | yaml
  | markdown
  | bash
  | sql
  | unknown
  deriving DecidableEq, Inhabited

/-- What is known about a language: the endings of its files, the grammar that reads them, the
family of its trees, and whether its files are documents with scripts in markup. -/
structure LanguageSpec where
  extensions : List String
  grammar : String
  family : Family := .generic
  composite : Bool := false

namespace Language

/-- All languages that have a grammar. -/
def known : List Language :=
  [.javascript, .typescript, .tsx, .jsx, .python, .go, .rust, .java, .kotlin, .c, .cpp, .csharp,
   .php, .ruby, .swift, .dart, .vue, .svelte, .html, .css, .scss, .json, .yaml, .markdown,
   .bash, .sql]

/-- The name of a language. -/
def name : Language → String
  | .javascript => "javascript"
  | .typescript => "typescript"
  | .tsx => "tsx"
  | .jsx => "jsx"
  | .python => "python"
  | .go => "go"
  | .rust => "rust"
  | .java => "java"
  | .kotlin => "kotlin"
  | .c => "c"
  | .cpp => "cpp"
  | .csharp => "csharp"
  | .php => "php"
  | .ruby => "ruby"
  | .swift => "swift"
  | .dart => "dart"
  | .vue => "vue"
  | .svelte => "svelte"
  | .html => "html"
  | .css => "css"
  | .scss => "scss"
  | .json => "json"
  | .yaml => "yaml"
  | .markdown => "markdown"
  | .bash => "bash"
  | .sql => "sql"
  | .unknown => "unknown"

/-- The language of a name. -/
def ofName? (s : String) : Option Language :=
  (known ++ [Language.unknown]).find? fun l => l.name == s

/-- What is known about a language. -/
def spec? : Language → Option LanguageSpec
  | .javascript =>
    some { extensions := [".js", ".mjs", ".cjs"], grammar := "javascript", family := .ecmascript }
  | .typescript =>
    some { extensions := [".ts", ".mts", ".cts"], grammar := "typescript", family := .ecmascript }
  | .tsx => some { extensions := [".tsx"], grammar := "tsx", family := .ecmascript }
  | .jsx => some { extensions := [".jsx"], grammar := "javascript", family := .ecmascript }
  | .python => some { extensions := [".py", ".pyi"], grammar := "python", family := .python }
  | .go => some { extensions := [".go"], grammar := "go", family := .go }
  | .rust => some { extensions := [".rs"], grammar := "rust", family := .rust }
  | .java => some { extensions := [".java"], grammar := "java", family := .jvm }
  | .kotlin => some { extensions := [".kt", ".kts"], grammar := "kotlin", family := .jvm }
  | .c => some { extensions := [".c", ".h"], grammar := "c", family := .c }
  | .cpp =>
    some { extensions := [".cpp", ".cc", ".cxx", ".hpp", ".hxx"], grammar := "cpp", family := .c }
  | .csharp => some { extensions := [".cs"], grammar := "csharp", family := .csharp }
  | .php => some { extensions := [".php"], grammar := "php", family := .php }
  | .ruby => some { extensions := [".rb"], grammar := "ruby", family := .ruby }
  | .swift => some { extensions := [".swift"], grammar := "swift" }
  | .dart => some { extensions := [".dart"], grammar := "dart" }
  | .vue =>
    some { extensions := [".vue"], grammar := "javascript", family := .ecmascript, composite := true }
  | .svelte =>
    some { extensions := [".svelte"], grammar := "javascript", family := .ecmascript, composite := true }
  | .html => some { extensions := [".html", ".htm"], grammar := "html" }
  | .css => some { extensions := [".css"], grammar := "css" }
  | .scss => some { extensions := [".scss", ".sass"], grammar := "scss" }
  | .json => some { extensions := [".json"], grammar := "json" }
  | .yaml => some { extensions := [".yaml", ".yml"], grammar := "yaml" }
  | .markdown => some { extensions := [".md", ".mdx"], grammar := "markdown" }
  | .bash => some { extensions := [".sh", ".bash"], grammar := "bash" }
  | .sql => some { extensions := [".sql"], grammar := "sql" }
  | .unknown => none

/-- The endings of the files of a language. -/
def extensions (l : Language) : List String :=
  (l.spec?.map LanguageSpec.extensions).getD []

/-- The family of a language. -/
def family (l : Language) : Family :=
  (l.spec?.map LanguageSpec.family).getD .generic

/-- The family of the language of a name. -/
def familyOfName (s : String) : Family :=
  ((ofName? s).map family).getD .generic

end Language

end Concordance
