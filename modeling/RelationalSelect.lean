import RelationalSelect.Catalog
import RelationalSelect.Roster
import RelationalSelect.Query.Compile
import RelationalSelect.Proofs.Catalogs
import RelationalSelect.Proofs.Histories
import RelationalSelect.Proofs.Scope
import RelationalSelect.Proofs.InsideAlias
import RelationalSelect.Proofs.Frames
import RelationalSelect.Proofs.Meaning
import RelationalSelect.Proofs.OuterJoin
import RelationalSelect.Proofs.Contexts
import RelationalSelect.Proofs.Nesting
import RelationalSelect.Proofs.Routing
import RelationalSelect.Proofs.Owners
import RelationalSelect.Proofs.Built
import RelationalSelect.Proofs.Refusals
import RelationalSelect.Proofs.Acceptance
import RelationalSelect.Proofs.Reading.Nearest
import RelationalSelect.Proofs.Reading.Numerals
import RelationalSelect.Proofs.Reading.Quotations
import RelationalSelect.Proofs.Reading.Escapes
import RelationalSelect.Proofs.Reading.Tokens
import RelationalSelect.Proofs.Reading.Grammar
import RelationalSelect.Proofs.Reading.Conditions
import RelationalSelect.Proofs.Reading.Comparisons
import RelationalSelect.Proofs.Reading.Literals
import RelationalSelect.Proofs.Reading.Conjunctions
import RelationalSelect.Proofs.Reading.Statements
import RelationalSelect.Proofs.Alike
import RelationalSelect.Proofs.FirstAliases
import RelationalSelect.Proofs.FirstFree
import RelationalSelect.Proofs.Counterparts
import RelationalSelect.Proofs.Identities
import RelationalSelect.Proofs.SelectList
import RelationalSelect.Proofs.Appending
import RelationalSelect.Proofs.Resolution
import RelationalSelect.Proofs.Lookup
import RelationalSelect.Proofs.Layers
import RelationalSelect.Proofs.Regrouping
import RelationalSelect.Proofs.ChainedSelections
import RelationalSelect.Proofs.Narration
