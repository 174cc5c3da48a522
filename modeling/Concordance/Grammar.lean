import Concordance.Chars.Utf8
import Concordance.Language.Basic
import Concordance.Roster
import Concordance.Tree.Basic

/-!
# Grammars

A grammar makes syntax trees of sources. Some grammars cannot be loaded. A registry remembers for
every grammar it was asked for whether it could be loaded, and asks for each only once; of the
grammars that could not, the first is reported as a warning and the others for the record.
-/

namespace Concordance

/-- The grammars at hand: which of them cannot be loaded, and the trees that the others make. -/
structure Grammars where
  isMissing : String → Bool
  tree? : String → Bytes → Option Tree

/-- How urgent a report is. -/
inductive ReportLevel where
  | warning
  | debug
  deriving DecidableEq, Inhabited

/-- The name of a level. -/
def ReportLevel.name : ReportLevel → String
  | .warning => "WARNING"
  | .debug => "DEBUG"

/-- A report of a grammar that cannot be loaded. -/
structure MissReport where
  level : ReportLevel
  grammar : String
  deriving DecidableEq, Inhabited

/-- The text of a report. -/
def MissReport.message (r : MissReport) : String :=
  let subject := "Grammar not available for " ++ r.grammar
  let cause := ": no grammar named " ++ r.grammar
  match r.level with
  | .warning => subject ++ ", its files will not be indexed" ++ cause
  | .debug => subject ++ cause

/-- A parser: it makes its trees by one grammar. -/
structure Parser where
  grammar : String
  deriving DecidableEq, Inhabited

/-- What a registry remembers: for every grammar asked for whether it was there, how often it tried
to load one, and whether it has warned. -/
structure GrammarRegistry where
  loaded : Roster String Bool := .empty
  loadCount : Nat := 0
  warned : Bool := false

namespace GrammarRegistry

/-- What a request gives: the registry after it, what was asked for if it is there, and the
reports. -/
structure Outcome (α : Type) where
  registry : GrammarRegistry
  found : Option α
  reports : List MissReport

/-- The outcome with something made of what was found. -/
def Outcome.map {α β : Type} (f : α → β) (o : Outcome α) : Outcome β :=
  ⟨o.registry, o.found.map f, o.reports⟩

/-- Asks for a grammar. -/
def load (isMissing : String → Bool) (r : GrammarRegistry) (grammar : String) : Outcome String :=
  match r.loaded.get? grammar with
  | some available => ⟨r, if available then some grammar else none, []⟩
  | none =>
    let missing := isMissing grammar
    let registry : GrammarRegistry :=
      { loaded := r.loaded.put grammar (!missing)
        loadCount := r.loadCount + 1
        warned := r.warned || missing }
    let level : ReportLevel := if r.warned then .debug else .warning
    if missing then ⟨registry, none, [⟨level, grammar⟩]⟩ else ⟨registry, some grammar, []⟩

/-- Asks for the grammar of a language; a language without one asks for nothing. -/
def loadFor (isMissing : String → Bool) (r : GrammarRegistry) (language : Language) :
    Outcome String :=
  match language.spec? with
  | none => ⟨r, none, []⟩
  | some spec => r.load isMissing spec.grammar

/-- Asks for a new parser; there is one if its grammar is there. -/
def newParser (isMissing : String → Bool) (r : GrammarRegistry) (grammar : String) :
    Outcome Parser :=
  (r.load isMissing grammar).map Parser.mk

end GrammarRegistry

end Concordance
