/-! The version of the program. -/

namespace Colloquy

def version : String := "0.0.1a9"

end Colloquy
