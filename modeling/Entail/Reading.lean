import Entail.Listing

/-! An expression read on its own, every fact fresh: its text, its tokens and its postfix form. -/

namespace Entail.Postfix

/-- Reads an expression: the lines written when `verbose`, and the postfix code (or, unless
`wantCode`, the fault that evaluation meets), or the fault that stopped the reading. -/
def read (verbose wantCode : Bool) (expr : String) : String × Except Fault Postfix :=
  let t := FactTable.empty
  let chars := Token.unspaced expr
  let trace := if verbose then "TOKENS: " ++ String.ofList chars ++ "\n" else ""
  match Token.scan chars with
  | .error e => (trace, .error e)
  | .ok tokens =>
    let trace := trace ++ if verbose then "EXPANDED: " ++ t.showTokens tokens ++ "\n" else ""
    match ofTokens tokens with
    | .error e => (trace, .error e)
    | .ok code =>
      let trace := trace ++ if verbose then "RPN: " ++ t.showPostfix code ++ "\n" else ""
      (trace, if wantCode then .ok code else .error .noEnvironment)

end Entail.Postfix
