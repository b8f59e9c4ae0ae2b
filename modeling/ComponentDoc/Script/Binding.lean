import ComponentDoc.Script.Tree

namespace ComponentDoc.Script

mutual

def Pattern.names : Pattern → List Ident
  | .ident id _ => [id]
  | .hole => []
  | .array _ elements _ => patternsNames elements
  | .object _ properties _ => propertiesNames properties
  | .rest _ inner _ => inner.names
  | .withDefault inner _ => inner.names
  | .target _ => []

def patternsNames : List Pattern → List Ident
  | [] => []
  | p :: ps => p.names ++ patternsNames ps

def PatternProperty.names : PatternProperty → List Ident
  | .keyValue _ value => value.names
  | .shorthand id _ => [id]
  | .rest _ inner => inner.names

def propertiesNames : List PatternProperty → List Ident
  | [] => []
  | p :: ps => p.names ++ propertiesNames ps

end

end ComponentDoc.Script
