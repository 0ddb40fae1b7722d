import TypeLedger.CType.Reach
import TypeLedger.Main
import TypeLedger.Proofs.Grammar.Coherent
import TypeLedger.Proofs.Registration.Identity
import TypeLedger.Proofs.Registration.Mirror
import TypeLedger.Proofs.RoundTrip.Complete
import TypeLedger.Proofs.RoundTrip.Declaration
import TypeLedger.Proofs.RoundTrip.Program
import TypeLedger.Proofs.Tables.Faithful
import TypeLedger.Proofs.Tables.SharedNames
import TypeLedger.Proofs.Tables.SharedTags
import TypeLedger.Proofs.Layers.Built
import TypeLedger.Proofs.Layers.Agreement
import TypeLedger.Proofs.Layers.ByValue
import TypeLedger.Proofs.Layers.DefinitionOrder
import TypeLedger.Proofs.Grammar.Trace
import TypeLedger.Proofs.Layers.Overlay
import TypeLedger.Proofs.Layers.Refusal
import TypeLedger.Proofs.Layers.Tree
import TypeLedger.Proofs.Registration.SelfReference
import TypeLedger.Proofs.Renaming.Tables
import TypeLedger.Proofs.Grammar.Completed
import TypeLedger.Proofs.Renaming.Permuted
import TypeLedger.Proofs.Grammar.Locality
import TypeLedger.Proofs.Lexing.Printed
import TypeLedger.Proofs.Json.Persisted
import TypeLedger.Proofs.Grammar.WellFormed
import TypeLedger.Proofs.Registration.Reserved
import TypeLedger.Proofs.Lexing.LineEndings
import TypeLedger.Proofs.Synonyms.Transparent
import TypeLedger.Proofs.Tables.Growth
import TypeLedger.Proofs.Printing.Parentheses
import TypeLedger.Proofs.Grammar.BuiltinTypes
import TypeLedger.Proofs.Grammar.Influence
import TypeLedger.Proofs.RoundTrip.Sigils
import TypeLedger.Proofs.RoundTrip.Members
import TypeLedger.Proofs.Layers.Faults
import TypeLedger.Proofs.Tables.Bases
import TypeLedger.Proofs.Lexing.Directives
import TypeLedger.Proofs.Lexing.Errors
import TypeLedger.Proofs.Lexing.Places
import TypeLedger.Proofs.Lexing.Strings
import TypeLedger.Proofs.Grammar.Overflow
import TypeLedger.Proofs.Layers.Frame
import TypeLedger.Proofs.Printing.Layered
import TypeLedger.Proofs.Grammar.DeclaratorLists
import TypeLedger.Proofs.Synonyms.Congruence
import TypeLedger.Proofs.Printing.Handles
import TypeLedger.Proofs.Layers.Listed
import TypeLedger.Proofs.RoundTrip.Definitions
