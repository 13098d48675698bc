/-!
# Errors of a request

An error never ends a request: it is added to the list of the response, and the other branches of
the query go on.
-/

namespace NestedQuery

inductive RequestError where
  -- the document, or a heading in it, cannot be read
  | malformed (message : String)
  | unknownEntity (name : String)
  -- the entity exists, but not as a child of the one around it
  | unknownRelationship (name parent : String)
  | invalidArgument (entity key reason : String)
  -- the store refused a query
  | execution (message : String)
  deriving DecidableEq, Repr

namespace RequestError

def message : RequestError → String
  | malformed message => message
  | unknownEntity name => name ++ " is not a valid entity"
  | unknownRelationship name parent => name ++ " is not a child relationship of " ++ parent
  | invalidArgument entity key reason => entity ++ ": argument '" ++ key ++ "' " ++ reason
  | execution message => message

def code : RequestError → String
  | malformed _ => "ParseError"
  | unknownEntity _ => "UnknownEntityError"
  -- both faults are one to the reader of a response
  | unknownRelationship _ _ => "UnknownEntityError"
  | invalidArgument _ _ _ => "InvalidArgument"
  | execution _ => "ExecutionError"

def coded (e : RequestError) : String := "[" ++ e.code ++ "] " ++ e.message

end RequestError

end NestedQuery
