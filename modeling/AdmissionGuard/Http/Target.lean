import AdmissionGuard.Text.Split
/-!
Request targets: a path with an optional query, the same after a scheme and an authority, an authority
alone, or an asterisk. A fragment is dropped.
-/

namespace AdmissionGuard.Http

structure Target where
  scheme : Option String := none
  authority : Option String := none
  path : String
  query : Option String := none
deriving DecidableEq

namespace Target

def toString (t : Target) : String :=
  let scheme := (t.scheme.map (· ++ "://")).getD ""
  let query := (t.query.map ("?" ++ ·)).getD ""
  scheme ++ t.authority.getD "" ++ t.path ++ query

def isPathChar (c : Char) : Bool :=
  0x20 < c.toNat && c ≠ '?' && c ≠ '#' && c ≠ '<' && c ≠ '>' && c ≠ '\x60'

def isQueryChar (c : Char) : Bool :=
  0x20 < c.toNat && c ≠ '#' && c ≠ '"' && c ≠ '<' && c ≠ '>'

def isAuthorityChar (c : Char) : Bool :=
  c.isAlphanum || c ∈ "-._~!$&'()*+,;=:@[]%".toList

def ofPath? (cs : List Char) : Option Target :=
  let cs := cs.takeWhile (· ≠ '#')
  let (path, query?) :=
    match Text.cut? '?' cs with
    | some (path, query) => (path, some query)
    | none => (cs, none)
  if path.all isPathChar && (query?.getD []).all isQueryChar then
    some { path := String.ofList path, query := query?.map String.ofList }
  else none

def ofAuthority? (cs : List Char) : Option Target :=
  if !cs.isEmpty && cs.all isAuthorityChar then
    some { authority := some (String.ofList cs), path := "" }
  else none

def cutScheme? (cs : List Char) : Option (List Char × List Char) :=
  match Text.cut? ':' cs with
  | some (scheme, '/' :: '/' :: rest) =>
    if scheme.all fun c => c.isAlphanum || c ∈ ['+', '-', '.'] then some (scheme, rest) else none
  | _ => none

def knownScheme (scheme : String) : String :=
  let lower := scheme.map Char.toLower
  if lower = "http" ∨ lower = "https" then lower else scheme

def ofScheme? (scheme rest : List Char) : Option Target :=
  let inAuthority := fun c => c ≠ '/' && c ≠ '?' && c ≠ '#'
  (ofAuthority? (rest.takeWhile inAuthority)).bind fun a =>
    (ofPath? (rest.dropWhile inAuthority)).map fun p =>
      { scheme := some (knownScheme (String.ofList scheme))
        authority := a.authority
        path := if p.path.isEmpty then "/" else p.path
        query := p.query }

def ofString? (s : String) : Option Target :=
  match s.toList with
  | ['*'] => some { path := "*" }
  | '/' :: cs => ofPath? ('/' :: cs)
  | cs =>
    match cutScheme? cs with
    | some (scheme, rest) => ofScheme? scheme rest
    | none => ofAuthority? cs

end Target

end AdmissionGuard.Http
