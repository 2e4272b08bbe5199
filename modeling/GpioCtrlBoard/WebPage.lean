/-! # Texts the web server sends -/

namespace GpioCtrlBoard

def header : String := "HTTP/1.1 200 OK\r\nContent-Type: text/html\r\n\r\n"

/-- The page, line by line. -/
def html : String :=
  String.intercalate "\n" [
    "",
    "<!DOCTYPE html>",
    "<html>",
    " <head>",
    "  <meta name='viewport' content='width=device-width, initial-scale=1.0'/>",
    "  <meta charset='utf-8'>",
    "  <style>",
    "    body \x7bfont-size:100%;\x7d ",
    "    #main \x7bdisplay: table; margin: auto;  padding: 0 10px 0 10px; \x7d ",
    "    h2 \x7btext-align:center; \x7d ",
    "    p \x7b text-align:center; \x7d",
    "  </style>",
    "",
    "  <script> ",
    "    function updateCount() ",
    "    \x7b  ",
    "       ajaxLoad('getValues'); ",
    "    \x7d",
    "",
    "",
    "    var ajaxRequest = null;",
    "    if (window.XMLHttpRequest)  \x7b ajaxRequest =new XMLHttpRequest(); \x7d",
    "    else                        \x7b ajaxRequest =new ActiveXObject(\"Microsoft.XMLHTTP\"); \x7d",
    "",
    "    function ajaxLoad(ajaxURL)",
    "    \x7b",
    "      if(!ajaxRequest)\x7b alert('AJAX is not supported.'); return; \x7d",
    "",
    "      ajaxRequest.open('GET',ajaxURL,true);",
    "      ajaxRequest.onreadystatechange = function()",
    "      \x7b",
    "        if(ajaxRequest.readyState == 4 && ajaxRequest.status==200)",
    "        \x7b",
    "          var ajaxResult = ajaxRequest.responseText;",
    "          document.getElementById('count_P').innerHTML = ajaxResult;",
    "        \x7d",
    "      \x7d",
    "      ajaxRequest.send();",
    "    \x7d",
    "",
    "    setInterval(updateCount, 500);",
    "",
    "  </script>",
    "  <title>Auto Update Example Using Javascript 2</title>",
    " </head>",
    "",
    " <body>",
    "   <div id='main'>",
    "     <h2>Auto Update Example Using Javascript 2</h2>",
    "     <div id='count_DIV'> ",
    "       <p id='count_P'>Count = 0</p>",
    "     </div>",
    "   </div> ",
    " </body>",
    "</html>",
    ""]

end GpioCtrlBoard
