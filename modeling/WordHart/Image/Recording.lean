import WordHart.Image.Program
import WordHart.Log

namespace WordHart.Image

def recordParsed (source : String) (parsed : Except ImageError (List Word)) (log : Log) : Log :=
  match parsed with
  | .ok words => log.record (.parsed words.length source)
  | .error _ => log

end WordHart.Image
