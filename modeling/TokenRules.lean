import TokenRules.NameMap.Lemmas
import TokenRules.WordSet.Lemmas
import TokenRules.FileTree.Lemmas
import TokenRules.Text.Blank.Lemmas
import TokenRules.Text.Quoted
import TokenRules.Text.ByteOrder
import TokenRules.Number.Layout.Lemmas
import TokenRules.Argument
import TokenRules.Formula
import TokenRules.Cost
import TokenRules.Context
import TokenRules.Builtin
import TokenRules.Engine
import TokenRules.Yaml.Token.Lexer
import TokenRules.Yaml.Event
import TokenRules.Yaml.Scalar
import TokenRules.Yaml.Reading
import TokenRules.Authoring.RuleDocument
import TokenRules.Authoring.Shape
import TokenRules.Authoring.Compilation
import TokenRules.Authoring.EngineConfig
import TokenRules.Inspection
import TokenRules.Proofs.CostChange
import TokenRules.Proofs.AuthoredMeaning
import TokenRules.Proofs.Calls
import TokenRules.Proofs.Demand
import TokenRules.Proofs.References
import TokenRules.Proofs.Insertions
import TokenRules.Proofs.DistinctKeys
import TokenRules.Proofs.Grammar
import TokenRules.Proofs.ListUnion
import TokenRules.Proofs.Sources
import TokenRules.Proofs.Failures
import TokenRules.Proofs.Sessions
import TokenRules.Proofs.Concatenation
import TokenRules.Proofs.Determination
import TokenRules.Proofs.WrittenArguments
import TokenRules.Proofs.RoundTrip
import TokenRules.Proofs.Negation
import TokenRules.Proofs.Lookups
import TokenRules.Proofs.Reports
import TokenRules.Proofs.FirstFault
import TokenRules.Proofs.Outcomes
import TokenRules.Proofs.Rankings
import TokenRules.Proofs.FirstTried
import TokenRules.Proofs.PlainNumbers
import TokenRules.Proofs.CostHistories
import TokenRules.Proofs.SearchedWords
import TokenRules.Proofs.ArgumentKeys
import TokenRules.Proofs.ListFiles
import TokenRules.Proofs.CostOrder
import TokenRules.Proofs.LastGiven
import TokenRules.Proofs.LineBreaks
