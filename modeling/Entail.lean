import Entail.Text.Printable
import Entail.Text.Quoted
import Entail.Text.Upper
import Entail.Text.Blank
import Entail.Text.Digit
import Entail.Token
import Entail.Fault
import Entail.Token.Scan
import Entail.Postfix
import Entail.Fact
import Entail.Fact.Table
import Entail.Fact.Combine
import Entail.Rule
import Entail.Listing
import Entail.Reading
import Entail.Infer
import Entail.RuleBook
import Entail.Session
import Entail.CommandLine
import Entail.Files
import Entail.Program
import Entail.Main
import Entail.Proofs.Formula
import Entail.Proofs.Shunting
import Entail.Proofs.Evaluation
import Entail.Proofs.Independence
import Entail.Proofs.Semantics
import Entail.Proofs.Tables
import Entail.Proofs.Resolution
import Entail.Proofs.Answers
import Entail.Proofs.Coupling
import Entail.Proofs.Sessions
import Entail.Proofs.RuleOrder
import Entail.Proofs.Spacing
import Entail.Proofs.History
import Entail.Proofs.Lexing
import Entail.Proofs.Conservation
import Entail.Proofs.Arity
import Entail.Proofs.Depth
import Entail.Proofs.Registration
import Entail.Proofs.Conclusions
import Entail.Proofs.Ancestry
