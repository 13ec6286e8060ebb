import Bindery.Command.Directory
import Bindery.Main
import Bindery.Proofs.Bindings.Accounting
import Bindery.Proofs.Bindings.MemberOrder
import Bindery.Proofs.Bindings.Pruning
import Bindery.Proofs.Bindings.SymbolOrder
import Bindery.Proofs.Assembly.Lifecycle
import Bindery.Proofs.Assembly.Moves
import Bindery.Proofs.Assembly.Refusals
import Bindery.Proofs.Bindings.Missing
import Bindery.Proofs.Assembly.Fields
import Bindery.Proofs.Bindings.Names
import Bindery.Proofs.Assembly.Mentions
import Bindery.Proofs.Assembly.Reach
import Bindery.Proofs.Assembly.Constructors
import Bindery.Proofs.Assembly.OwnFields
import Bindery.Proofs.Emission.Stable
import Bindery.Proofs.Symbol.Document
import Bindery.Proofs.Assembly.Overloads
import Bindery.Proofs.Assembly.LeftOut
import Bindery.Proofs.Ident.Settled
import Bindery.Proofs.Decl.Renaming
import Bindery.Proofs.Assembly.Renaming
import Bindery.Proofs.Assembly.Demand
import Bindery.Proofs.Assembly.Within
import Bindery.Proofs.Bindings.Ending
import Bindery.Proofs.Bindings.Logged
import Bindery.Proofs.Decl.Links
import Bindery.Proofs.Graph.Checked
import Bindery.Proofs.Graph.Visit
import Bindery.Proofs.Json.Extent
import Bindery.Proofs.Json.Written
import Bindery.Proofs.Json.Finding
import Bindery.Proofs.Json.Rewriting
import Bindery.Proofs.Json.Tagged
import Bindery.Proofs.Symbol.Rewriting
import Bindery.Proofs.Graph.Additions
import Bindery.Proofs.Symbol.Loading
